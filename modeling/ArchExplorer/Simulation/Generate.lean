import ArchExplorer.Simulation.Sources

/-!
# Building a design into the sources

The declarations of different parameters never overlap: a declaration has one equals sign behind a
blank, and the word before it is the name of the parameter. A generation therefore sets every
declaration of its parameters, and nothing is left of the design that was generated before.
-/

namespace ArchExplorer.Simulation

open ArchExplorer.Lib ArchExplorer.Lib.Text ArchExplorer.Design

variable {p q : Setting} {s m x y y' m' d d' : Text} {w w' : Char} {embedding : List ℤ}

/-! ### Declarations do not overlap -/

/-- A text is cut at the first occurrence of a character in one way. -/
lemma append_cons_inj {c : Char} {a a' b b' : Text} (ha : c ∉ a) (ha' : c ∉ a')
    (h : a ++ c :: b = a' ++ c :: b') : a = a' ∧ b = b' := by
  rcases List.append_eq_append_iff.mp h with ⟨t, rfl, ht⟩ | ⟨t, rfl, ht⟩
  · cases t with
    | nil => simpa using ht
    | cons e t =>
      obtain rfl := (List.cons.inj ht).1
      simp at ha'
  · cases t with
    | nil => simpa [eq_comm] using ht
    | cons e t =>
      obtain rfl := (List.cons.inj ht).1
      simp at ha

namespace Setting

/-- What follows the equals sign of a declaration. -/
def behind (p : Setting) (w : Char) (d : Text) : Text :=
  " Param".toList ++ w :: ((p.type ++ "(").toList ++ (d ++ p.rest.toList))

/-- A declaration as the pattern reads it. -/
def declare (p : Setting) (w : Char) (d : Text) : Text :=
  p.name.toList ++ [' '] ++ '=' :: p.behind w d

lemma isAlpha_of_mem_name (p : Setting) : ∀ c ∈ p.name.toList, c.isAlpha = true := by
  have hall : p.name.toList.all Char.isAlpha = true := by cases p <;> decide
  exact List.all_eq_true.mp hall

lemma equals_notMem_type (p : Setting) : '=' ∉ (p.type ++ "(").toList := by cases p <;> decide

lemma equals_notMem_rest (p : Setting) : '=' ∉ p.rest.toList := by cases p <;> decide

/-- The number ends where the rest begins. -/
lemma head?_rest (p : Setting) : p.rest.toList.head? = some ',' := by cases p <;> decide

/-- The last character is none of a name and none before the equals sign. -/
lemma getLast?_rest (p : Setting) :
    ∃ c ∈ p.rest.toList.getLast?, c.isAlpha = false ∧ c ≠ ' ' ∧ c ≠ '=' := by
  have hlast : p.rest.toList.getLast? = some ')' ∨ p.rest.toList.getLast? = some '"' ∨
      p.rest.toList.getLast? = some ',' := by
    cases p <;> decide
  rcases hlast with h | h | h
  all_goals exact ⟨_, h, by decide, by decide, by decide⟩

/-- No name is the end of another one. -/
lemma eq_of_name_suffix (h : p.name.toList <:+ q.name.toList) : p = q := by
  revert h
  cases p <;> cases q <;> decide

lemma accepts_iff : p.pattern.Accepts m ↔
    ∃ w d, w ≠ '\n' ∧ d ≠ [] ∧ (∀ c ∈ d, c.isDigit = true) ∧ m = p.declare w d := by
  have htext : (p.name ++ " = Param").toList =
      p.name.toList ++ [' '] ++ '=' :: " Param".toList := by
    rw [String.toList_append, List.append_assoc]
    rfl
  simp only [pattern, Regex.accepts_seq_iff, Regex.accepts_text_iff, Regex.accepts_cls_iff,
    Regex.accepts_plus_iff, htext, bne_iff_ne]
  constructor
  · rintro ⟨_, _, rfl, ⟨_, _, ⟨w, hw, rfl⟩, ⟨_, _, rfl, ⟨d, _, ⟨hne, hall⟩, rfl, rfl⟩, rfl⟩, rfl⟩,
      rfl⟩
    refine ⟨w, d, hw, hne, hall, ?_⟩
    simp [declare, behind]
  · rintro ⟨w, d, hw, hne, hall, rfl⟩
    refine ⟨_, _, rfl, ⟨_, _, ⟨w, hw, rfl⟩, ⟨_, _, rfl, ⟨d, _, ⟨hne, hall⟩, rfl, rfl⟩, rfl⟩, rfl⟩,
      ?_⟩
    simp [declare, behind]

lemma equals_notMem_name (p : Setting) : '=' ∉ p.name.toList ++ [' '] := by
  intro h
  rcases List.mem_append.mp h with h | h
  · exact absurd (p.isAlpha_of_mem_name _ h) (by decide)
  · exact absurd h (by decide)

/-- The equals sign of a declaration is behind a blank, which no other character of it is. -/
lemma behind_ne (hd : ∀ c ∈ d, c.isDigit = true) {a b : Text} :
    p.behind w d ≠ a ++ [' '] ++ '=' :: b := by
  intro h
  have hend : '=' ∉ (p.type ++ "(").toList ++ (d ++ p.rest.toList) := by
    simp only [List.mem_append, p.equals_notMem_type, p.equals_notMem_rest, false_or, or_false]
    intro h
    exact absurd (hd _ h) (by decide)
  have hparam : a ++ [' '] ≠ " Param".toList := by
    intro h
    have hlast : (a ++ [' ']).getLast? = some ' ' := by simp
    rw [h] at hlast
    exact absurd hlast (by decide)
  rw [behind] at h
  rcases List.append_eq_append_iff.mp h with ⟨t, ha, ht⟩ | ⟨t, ha, ht⟩
  · cases t with
    | nil => exact hparam (by simpa using ha)
    | cons e t =>
      obtain ⟨-, hrest⟩ := List.cons.inj ht
      exact hend (hrest ▸ by simp)
  · cases t with
    | nil => exact hparam (by simpa using ha.symm)
    | cons e t =>
      obtain rfl := (List.cons.inj ht).1
      exact absurd (ha ▸ by simp : '=' ∈ " Param".toList) (by decide)

lemma getLast?_behind (p : Setting) (w : Char) (d : Text) :
    ∃ c ∈ (p.behind w d).getLast?, c.isAlpha = false ∧ c ≠ ' ' ∧ c ≠ '=' := by
  obtain ⟨c, hc, h⟩ := p.getLast?_rest
  have hne : p.rest.toList ≠ [] := by
    intro hnil
    rw [hnil] at hc
    cases hc
  refine ⟨c, ?_, h⟩
  have happ : p.behind w d = (" Param".toList ++ w :: ((p.type ++ "(").toList ++ d)) ++
      p.rest.toList := by
    simp [behind]
  rw [happ, List.getLast?_append_of_ne_nil _ hne]
  exact hc

lemma declare_same (hd : ∀ c ∈ d, c.isDigit = true) (hd' : ∀ c ∈ d', c.isDigit = true)
    (h : p.declare w d ++ y = q.declare w' d' ++ y') :
    p = q ∧ p.declare w d = q.declare w' d' := by
  simp only [declare, List.append_assoc _ ('=' :: _), List.cons_append] at h
  obtain ⟨hname, hbehind⟩ := append_cons_inj p.equals_notMem_name q.equals_notMem_name h
  obtain rfl := eq_of_name_suffix ⟨[], List.append_cancel_right hname⟩
  refine ⟨rfl, ?_⟩
  simp only [behind, List.append_assoc, List.cons_append, List.append_cancel_left_eq,
    List.cons.injEq] at hbehind
  obtain ⟨rfl, hdigits⟩ := hbehind
  -- the digits go as far as the rest, which begins with another character
  obtain ⟨t, ht⟩ : ∃ t, p.rest.toList = ',' :: t := List.head?_eq_some_iff.mp p.head?_rest
  have htake {e : Text} (he : ∀ c ∈ e, c.isDigit = true) (z : Text) :
      (e ++ (p.rest.toList ++ z)).takeWhile Char.isDigit = e := by
    rw [ht, List.cons_append, List.takeWhile_append_of_pos he, List.takeWhile_cons_of_neg,
      List.append_nil]
    decide
  rw [← htake hd y, hdigits, htake hd' y']

lemma declare_alone (hd : ∀ c ∈ d, c.isDigit = true) (hx : x ≠ [])
    (h : p.declare w d ++ y = x ++ (q.declare w' d' ++ y')) :
    (p.declare w d).length ≤ x.length := by
  by_contra hlt
  obtain ⟨z, hz⟩ : x <+: p.declare w d :=
    List.prefix_of_prefix_length_le ⟨_, h.symm⟩ (List.prefix_append _ _) (by omega)
  have hzne : z ≠ [] := by
    rintro rfl
    rw [← hz] at hlt
    simp at hlt
  rw [← hz, List.append_assoc, List.append_cancel_left_eq] at h
  by_cases hmem : '=' ∈ x
  · -- the other declaration begins behind the equals sign, and there is no second one
    obtain ⟨a, x', rfl, ha⟩ := List.eq_append_cons_of_mem hmem
    rw [declare, List.append_assoc a, List.cons_append] at hz
    obtain ⟨-, hbehind⟩ := append_cons_inj ha p.equals_notMem_name hz
    have hq : q.declare w' d' ++ y' =
        q.name.toList ++ [' '] ++ ['='] ++ (q.behind w' d' ++ y') := by
      simp [declare]
    rw [hq] at h
    rcases List.append_eq_append_iff.mp h with ⟨t, ht, -⟩ | ⟨t, ht, -⟩
    · obtain ⟨c, hc, halpha, hblank, hequals⟩ := p.getLast?_behind w d
      rw [← hbehind, List.getLast?_append_of_ne_nil _ hzne] at hc
      have hmem := List.mem_of_getLast? hc
      have hmem : c ∈ q.name.toList ++ [' '] ++ ['='] := ht ▸ List.mem_append_left t hmem
      simp only [List.mem_append, List.mem_singleton, hblank, hequals, or_false] at hmem
      rw [q.isAlpha_of_mem_name c hmem] at halpha
      cases halpha
    · refine behind_ne hd (p := p) (w := w) (a := x' ++ q.name.toList) (b := t) ?_
      rw [← hbehind, ht]
      simp
  · -- the other declaration begins before the equals sign
    have hp : p.declare w d ++ y =
        x ++ (q.name.toList ++ [' ']) ++ '=' :: (q.behind w' d' ++ y') := by
      rw [← hz, List.append_assoc, h]
      simp [declare]
    rw [declare, List.append_assoc _ ('=' :: _), List.cons_append] at hp
    have hnot : '=' ∉ x ++ (q.name.toList ++ [' ']) := by
      rw [List.mem_append, not_or]
      exact ⟨hmem, q.equals_notMem_name⟩
    obtain ⟨hname, -⟩ := append_cons_inj p.equals_notMem_name hnot hp
    rw [← List.append_assoc] at hname
    have hname := List.append_cancel_right hname
    obtain rfl := eq_of_name_suffix ⟨x, hname.symm⟩
    exact hx (by simpa using hname)

/-- The declarations of the parameters do not overlap. -/
lemma apart : Regex.Apart pattern where
  nonempty := by
    intro p m hm
    obtain ⟨w, d, -, -, -, rfl⟩ := accepts_iff.mp hm
    simp [declare]
  same := by
    intro p q m m' y y' hm hm' h
    obtain ⟨w, d, -, -, hd, rfl⟩ := accepts_iff.mp hm
    obtain ⟨w', d', -, -, hd', rfl⟩ := accepts_iff.mp hm'
    exact declare_same hd hd' h
  alone := by
    intro p q m x m' y y' hm hm' hx h
    obtain ⟨w, d, -, -, hd, rfl⟩ := accepts_iff.mp hm
    obtain ⟨w', d', -, -, -, rfl⟩ := accepts_iff.mp hm'
    exact declare_alone hd hx h

/-- A declaration with a natural number can be found again. -/
lemma accepts_declaration (p : Setting) {value : ℤ} (h : 0 ≤ value) :
    p.pattern.Accepts (p.declaration value) := by
  obtain ⟨n, rfl⟩ := Int.eq_ofNat_of_zero_le h
  refine accepts_iff.mpr ⟨'.', Text.ofNat n, by decide, Nat.toDigits_ne_nil, ?_, ?_⟩
  · intro c hc
    exact Nat.isDigit_of_mem_toDigits (by decide) (by decide) hc
  · simp [declaration, declare, behind, String.toList_append]

/-- The entry of the embedding that a parameter is set to. -/
def position : Setting → Option ℕ
  | fetchWidth | decodeWidth | renameWidth | dispatchWidth | issueWidth | wbWidth | commitWidth
  | squashWidth => some 0
  | fetchBufferSize     => some 1
  | fetchQueueSize      => some 2
  | localPredictorSize  => some 3
  | globalPredictorSize => some 4
  | choicePredictorSize => some 5
  | rasSize             => some 6
  | btbEntries          => some 7
  | numRobEntries       => some 8
  | numPhysIntRegs      => some 9
  | numPhysFloatRegs    => some 10
  | numIqEntries        => some 11
  | lqEntries           => some 12
  | sqEntries           => some 13
  | lfstSize | ssitSize | tlbSize => none

end Setting

/-! ### A generation -/

/-- The parameters in the order in which they are set. -/
def generated : List Setting :=
  [.fetchWidth, .decodeWidth, .renameWidth, .dispatchWidth, .issueWidth, .wbWidth, .commitWidth,
    .squashWidth, .fetchBufferSize, .fetchQueueSize, .localPredictorSize, .globalPredictorSize,
    .choicePredictorSize, .rasSize, .btbEntries, .numRobEntries, .numPhysIntRegs,
    .numPhysFloatRegs, .numIqEntries, .lqEntries, .sqEntries]

/-- The value of a parameter in a design. -/
def Setting.value (p : Setting) (embedding : List ℤ) : ℤ := embedding.getD (p.position.getD 0) 0

/-- The declarations of a file that a generation writes. -/
def edits (embedding : List ℤ) (f : File) : List (Setting × Text) :=
  (generated.filter (·.file = f)).map fun p => (p, p.declaration (p.value embedding))

/-- A design that can be built: its entries are natural numbers, and there is a class for each of
its functional units. -/
structure Buildable (embedding : List ℤ) (alu multDiv fp fpMult : String) : Prop where
  length : 18 ≤ embedding.length
  nonneg : ∀ a ∈ embedding, 0 ≤ a
  alu : unitOf intAluUnits (embedding.getD 14 0) = .ok alu
  multDiv : unitOf intMultDivUnits (embedding.getD 15 0) = .ok multDiv
  fp : unitOf fpAluUnits (embedding.getD 16 0) = .ok fp
  fpMult : unitOf fpMultDivUnits (embedding.getD 17 0) = .ok fpMult

variable {alu multDiv fp fpMult : String} {sources : Sources}

lemma entry_run {i : ℕ} (h : i < embedding.length) (sources : Sources) :
    (entry embedding i).run sources = (.ok (embedding.getD i 0), sources) := by
  rw [List.getD_eq_getElem?_getD, List.getElem?_eq_getElem h, Option.getD_some]
  simp [entry, listItem, h]

/-- The sources with another value of a parameter. -/
def Setting.applied (p : Setting) (value : ℤ) (sources : Sources) : Sources :=
  Function.update sources p.file (p.pattern.sub (p.declaration value) (sources p.file))

lemma Setting.set_run (p : Setting) (value : ℤ) (sources : Sources) :
    (p.set value).run sources = (.ok (), p.applied value sources) := rfl

/-- Setting a parameter leaves the declarations of the others alone. -/
lemma Setting.findall_applied (p : Setting) {q : Setting} {value : ℤ} (hvalue : 0 ≤ value)
    (hne : q ≠ p) (sources : Sources) (f : File) :
    (q.pattern.findall (p.applied value sources f)).map Match.consumed =
      (q.pattern.findall (sources f)).map Match.consumed := by
  by_cases hf : f = p.file
  · subst hf
    rw [applied, Function.update_self]
    have hedits : ∀ e ∈ [(p, p.declaration value)], e.1.pattern.Accepts e.2 := by
      simpa using p.accepts_declaration hvalue
    exact apart.findall_subAll_of_notMem hedits (by simpa using hne) _
  · rw [applied, Function.update_of_ne hf]

/-- The sources after a generation. -/
def written (embedding : List ℤ) (alu multDiv fp fpMult : String) (sources : Sources) : Sources
  | .fuPool => fuPoolPattern.sub (fuPool alu multDiv fp fpMult) (sources .fuPool)
  | f       => Regex.subAll Setting.pattern (edits embedding f) (sources f)

/-- Each file is rewritten by the parameters that are declared in it. -/
lemma foldl_applied (ps : List Setting) (sources : Sources) (f : File) :
    ps.foldl (fun s p => p.applied (p.value embedding) s) sources f =
      Regex.subAll Setting.pattern
        ((ps.filter (·.file = f)).map fun p => (p, p.declaration (p.value embedding)))
        (sources f) := by
  induction ps generalizing sources with
  | nil => rfl
  | cons p ps ih =>
    rw [List.foldl_cons, ih]
    by_cases hf : p.file = f
    · subst hf
      rw [Setting.applied, Function.update_self, List.filter_cons_of_pos (by simp)]
      rfl
    · rw [Setting.applied, Function.update_of_ne (Ne.symm hf),
        List.filter_cons_of_neg (by simpa using hf)]

/-- A design that can be built is written to the sources. -/
lemma Buildable.run (h : Buildable embedding alu multDiv fp fpMult) (sources : Sources) :
    (generateSources embedding).run sources =
      (.ok (), written embedding alu multDiv fp fpMult sources) := by
  have hlen := h.length
  have hentry (i : ℕ) (hi : i < 18) (s : Sources) :
      (entry embedding i).run s = (.ok (embedding.getD i 0), s) := entry_run (by omega) s
  have hrun : (generateSources embedding).run sources =
      (modifyGem5SourceCode .fuPool fuPoolPattern (fuPool alu multDiv fp fpMult)).run
        (generated.foldl (fun s p => p.applied (p.value embedding) s) sources) := by
    simp only [generateSources, generatePipelineWidth, generateFetchBuffer, generateFetchQueue,
      generateLocalPredictor, generateGlobalPredictor, generateChoicePredictor, generateRas,
      generateBtb, generateRob, generatePhysIntReg, generatePhysFpReg, generateIq, generateLq,
      generateSq, generateEu, Exec.run_bind, Setting.set_run, Exec.run_ofExcept, h.alu, h.multDiv,
      h.fp, h.fpMult, hentry 0 (by decide), hentry 1 (by decide), hentry 2 (by decide),
      hentry 3 (by decide), hentry 4 (by decide), hentry 5 (by decide), hentry 6 (by decide),
      hentry 7 (by decide), hentry 8 (by decide), hentry 9 (by decide), hentry 10 (by decide),
      hentry 11 (by decide), hentry 12 (by decide), hentry 13 (by decide), hentry 14 (by decide),
      hentry 15 (by decide), hentry 16 (by decide), hentry 17 (by decide)]
    rfl
  rw [hrun, modifyGem5SourceCode, Exec.run_modify]
  congr 1
  funext f
  cases f with
  | fuPool =>
    rw [Function.update_self, foldl_applied]
    rfl
  | baseO3Cpu | branchPredictor | riscvTlb =>
    rw [Function.update_of_ne (by decide), foldl_applied]
    rfl

lemma written_of_setting (p : Setting) :
    written embedding alu multDiv fp fpMult sources p.file =
      Regex.subAll Setting.pattern (edits embedding p.file) (sources p.file) := by
  cases p <;> rfl

lemma mem_edits {e : Setting × Text} {f : File} : e ∈ edits embedding f ↔
    e.1 ∈ generated ∧ e.1.file = f ∧ e.2 = e.1.declaration (e.1.value embedding) := by
  rw [edits, List.mem_map]
  constructor
  · rintro ⟨p, hp, rfl⟩
    obtain ⟨hgen, hfile⟩ := List.mem_filter.mp hp
    exact ⟨hgen, by simpa using hfile, rfl⟩
  · rintro ⟨hgen, hfile, hdecl⟩
    exact ⟨e.1, List.mem_filter.mpr ⟨hgen, by simpa using hfile⟩, Prod.ext rfl hdecl.symm⟩

lemma nodup_edits (embedding : List ℤ) (f : File) : ((edits embedding f).map Prod.fst).Nodup := by
  have hnodup : generated.Nodup := by decide
  rw [edits, List.map_map]
  exact (List.map_id _).symm ▸ hnodup.filter _

/-- The parameters that are set are those of the embedding. -/
lemma mem_generated {p : Setting} (h : p.position ≠ none) : p ∈ generated := by
  cases p <;> first | exact absurd rfl h | decide

lemma position_ne_none {p : Setting} (h : p ∈ generated) : p.position ≠ none := by
  cases p <;> first | exact Option.some_ne_none _ | exact absurd h (by decide)

lemma value_nonneg (h : ∀ a ∈ embedding, 0 ≤ a) (p : Setting) : 0 ≤ p.value embedding := by
  rw [Setting.value, List.getD_eq_getElem?_getD]
  cases hget : embedding[p.position.getD 0]? with
  | none => exact le_refl 0
  | some a => exact h a (List.mem_of_getElem? hget)

lemma Buildable.accepts_edits (h : Buildable embedding alu multDiv fp fpMult) {f : File} :
    ∀ e ∈ edits embedding f, e.1.pattern.Accepts e.2 := by
  intro e he
  obtain ⟨-, -, hdecl⟩ := mem_edits.mp he
  rw [hdecl]
  exact e.1.accepts_declaration (value_nonneg h.nonneg e.1)

/-! ### The functional units -/

lemma mem_of_unitOf {units : List (ℤ × String)} {n : ℤ} {unit : String}
    (h : unitOf units n = .ok unit) : unit ∈ units.map Prod.snd := by
  rw [unitOf] at h
  split at h
  · rename_i u hu
    obtain rfl : u = unit := Except.ok.inj h
    obtain ⟨l₁, l₂, rfl, -⟩ := List.lookup_eq_some_iff.mp hu
    simp
  · cases h

/-- The new list of units is in the class of the pattern. -/
lemma inClass_of_mem_fuPoolBody {n₁ n₂ n₃ n₄ : ℤ} (h₁ : unitOf intAluUnits n₁ = .ok alu)
    (h₂ : unitOf intMultDivUnits n₂ = .ok multDiv) (h₃ : unitOf fpAluUnits n₃ = .ok fp)
    (h₄ : unitOf fpMultDivUnits n₄ = .ok fpMult) :
    ∀ c ∈ fuPoolBody alu multDiv fp fpMult, inClass c = true := by
  have hnames : ∀ unit ∈ intAluUnits.map Prod.snd ++ intMultDivUnits.map Prod.snd ++
      fpAluUnits.map Prod.snd ++ fpMultDivUnits.map Prod.snd, unit.toList.all inClass = true := by
    decide
  have hrest : ("\n    FUList = [ ".toList ++ "(), ".toList ++
      "(), RdWrPort_v1() ]\n".toList).all inClass = true := by
    decide
  have halu := hnames alu (by simp [mem_of_unitOf h₁])
  have hmult := hnames multDiv (by simp [mem_of_unitOf h₂])
  have hfp := hnames fp (by simp [mem_of_unitOf h₃])
  have hfpMult := hnames fpMult (by simp [mem_of_unitOf h₄])
  rw [← List.all_eq_true]
  simp only [List.all_append, Bool.and_eq_true] at hrest
  simp only [fuPoolBody, String.toList_append, List.all_append, hrest, halu, hmult, hfp, hfpMult,
    Bool.and_self]

lemma fuPoolHeader_ne : fuPoolHeader ≠ [] := by decide

lemma inClass_head?_fuPoolHeader : ∀ c ∈ fuPoolHeader.head?, inClass c = true := by
  have hhead : fuPoolHeader.head? = some 'c' := rfl
  simp only [hhead, Option.mem_def, Option.some.injEq, forall_eq']
  decide

lemma newline_notMem_fuPoolHeader : '\n' ∉ fuPoolHeader := by decide

/-- On every source text a design that can be built is written as far as the patterns reach: every
declaration that the pattern of a parameter of the design matches holds its value, the declarations
of the other parameters are as before, and every class of functional units lists the units of the
design. Setting one parameter leaves the declarations of all others alone. -/
theorem generateSources_declares (embedding : List ℤ) (alu multDiv fp fpMult : String)
    (h : Buildable embedding alu multDiv fp fpMult) (sources : Sources) :
    (∃ sources', (generateSources embedding).run sources = (.ok (), sources') ∧
      (∀ (p : Setting) (i : ℕ), p.position = some i →
        (p.pattern.findall (sources' p.file)).map Match.consumed =
          List.replicate (p.pattern.findall (sources p.file)).length
            (p.declaration (embedding.getD i 0))) ∧
      (∀ p : Setting, p.position = none →
        (p.pattern.findall (sources' p.file)).map Match.consumed =
          (p.pattern.findall (sources p.file)).map Match.consumed) ∧
      (fuPoolPattern.findall (sources' .fuPool)).map Match.consumed =
        List.replicate (fuPoolPattern.findall (sources .fuPool)).length
          (fuPoolHeader ++ fuPoolBody alu multDiv fp fpMult)) ∧
    ∀ (p q : Setting) (value : ℤ), 0 ≤ value → q ≠ p →
      ∃ sources', (p.set value).run sources = (.ok (), sources') ∧
        ∀ f, (q.pattern.findall (sources' f)).map Match.consumed =
          (q.pattern.findall (sources f)).map Match.consumed := by
  refine ⟨⟨_, h.run sources, fun p i hi => ?_, fun p hp => ?_, ?_⟩, fun p q value hvalue hne => ?_⟩
  · rw [written_of_setting]
    have hvalue : p.value embedding = embedding.getD i 0 := by rw [Setting.value, hi]; rfl
    rw [← hvalue]
    exact Setting.apart.findall_subAll_of_mem h.accepts_edits (nodup_edits embedding p.file)
      (mem_edits.mpr ⟨mem_generated (by simp [hi]), rfl, rfl⟩) _
  · rw [written_of_setting]
    refine Setting.apart.findall_subAll_of_notMem h.accepts_edits (fun hmem => ?_) _
    obtain ⟨e, he, rfl⟩ := List.mem_map.mp hmem
    have hgen := (mem_edits.mp he).1
    exact absurd hp (position_ne_none hgen)
  · exact Regex.findall_sub_block fuPoolHeader_ne inClass_head?_fuPoolHeader
      newline_notMem_fuPoolHeader (inClass_of_mem_fuPoolBody h.alu h.multDiv h.fp h.fpMult) _
  · exact ⟨_, p.set_run value sources, fun f => p.findall_applied hvalue hne sources f⟩

/-- A file that nowhere has what follows the number in the pattern keeps its declarations. -/
lemma Setting.set_of_rest_notMem (p : Setting) (value : ℤ) {sources : Sources}
    (h : ¬p.rest.toList <:+: sources p.file) : (p.set value).run sources = (.ok (), sources) := by
  have hsub : p.pattern.sub (p.declaration value) (sources p.file) = sources p.file := by
    refine Regex.sub_eq_self fun u hu hinfix => h ?_
    obtain ⟨w, d, -, -, -, rfl⟩ := accepts_iff.mp hu
    refine List.IsInfix.trans (List.IsSuffix.isInfix ?_) hinfix
    exact ⟨p.name.toList ++ [' '] ++ '=' :: (" Param".toList ++ w :: ((p.type ++ "(").toList ++ d)),
      by simp [declare, behind]⟩
  rw [set_run, applied, hsub, Function.update_eq_self]

-- `BaseO3CPU.py` describes the squash width as "Squash width" and the pattern asks for
-- "Squash width width", so that the squash width is never set
example : ¬Setting.squashWidth.rest.toList <:+:
    "    squashWidth = Param.Unsigned(8, \"Squash width\")\n".toList := by
  decide +kernel

/-- A small design. -/
def smallDesign : List ℤ :=
  [4, 16, 16, 512, 2048, 2048, 16, 1024, 32, 40, 40, 16, 20, 20, 3, 1, 1, 2, 16, 2, 16, 2]

/-- Sources with one declaration and one class. -/
def smallSources : Sources
  | .baseO3Cpu => "    fetchWidth = Param.Unsigned(6, \"Fetch width\")\n".toList
  | .fuPool    => "class DSE_FUPool(FUPool):\n    FUList = [ IntALU_v4() ]\n".toList
  | _          => []

lemma smallDesign_buildable :
    Buildable smallDesign "IntALU_v1" "IntMultDiv_v1" "FP_ALU_v1" "FP_MultDiv_v2" where
  length := by decide
  nonneg := by decide
  alu := rfl
  multDiv := rfl
  fp := rfl
  fpMult := rfl

theorem generateSources_declares_small :
    Buildable smallDesign "IntALU_v1" "IntMultDiv_v1" "FP_ALU_v1" "FP_MultDiv_v2" ∧
      ∃ sources', (generateSources smallDesign).run smallSources = (.ok (), sources') ∧
        (Setting.fetchWidth.pattern.findall (sources' .baseO3Cpu)).map Match.consumed =
          ["fetchWidth = Param.Unsigned(4, \"Fetch width\")".toList] := by
  obtain ⟨⟨sources', hrun, hset, -, -⟩, -⟩ :=
    generateSources_declares _ _ _ _ _ smallDesign_buildable smallSources
  have hone : (Setting.fetchWidth.pattern.findall (smallSources .baseO3Cpu)).length = 1 := by
    decide +kernel
  refine ⟨smallDesign_buildable, sources', hrun, ?_⟩
  have hfile : Setting.fetchWidth.file = .baseO3Cpu := rfl
  have hfetch := hset .fetchWidth 0 rfl
  rw [hfile, hone] at hfetch
  rw [hfetch]
  decide +kernel

/-! ### The designs that were generated before -/

/-- The sources differ in declarations that a generation writes only. -/
def Partly (sources sources' : Sources) : Prop :=
  ∀ f, ∃ eds : List (Setting × Text),
    (∀ e ∈ eds, e.1 ∈ generated ∧ e.1.file = f ∧ e.1.pattern.Accepts e.2) ∧
      sources' f = Regex.subAll Setting.pattern eds (sources f)

/-- Two lists of edits of a file can be made one after the other. -/
lemma exists_edits_trans {f : File} {a b c : Text}
    (h : ∃ eds : List (Setting × Text),
      (∀ e ∈ eds, e.1 ∈ generated ∧ e.1.file = f ∧ e.1.pattern.Accepts e.2) ∧
        b = Regex.subAll Setting.pattern eds a)
    (h' : ∃ eds : List (Setting × Text),
      (∀ e ∈ eds, e.1 ∈ generated ∧ e.1.file = f ∧ e.1.pattern.Accepts e.2) ∧
        c = Regex.subAll Setting.pattern eds b) :
    ∃ eds : List (Setting × Text),
      (∀ e ∈ eds, e.1 ∈ generated ∧ e.1.file = f ∧ e.1.pattern.Accepts e.2) ∧
        c = Regex.subAll Setting.pattern eds a := by
  obtain ⟨eds, hok, rfl⟩ := h
  obtain ⟨eds', hok', rfl⟩ := h'
  refine ⟨eds ++ eds', List.forall_mem_append.mpr ⟨hok, hok'⟩, ?_⟩
  rw [Regex.subAll, Regex.subAll, Regex.subAll, List.foldl_append]

namespace Partly

lemma refl (sources : Sources) : Partly sources sources := by
  intro f
  exact ⟨[], by simp, rfl⟩

lemma trans {s₁ s₂ s₃ : Sources} (h : Partly s₁ s₂) (h' : Partly s₂ s₃) : Partly s₁ s₃ := by
  intro f
  exact exists_edits_trans (h f) (h' f)

/-- No parameter is declared in the file of the functional units. -/
lemma fuPool {s₁ s₂ : Sources} (h : Partly s₁ s₂) : s₂ .fuPool = s₁ .fuPool := by
  obtain ⟨eds, hok, heq⟩ := h .fuPool
  cases eds with
  | nil => exact heq
  | cons e eds =>
    obtain ⟨-, hfile, -⟩ := hok e (by simp)
    exact absurd hfile (by cases e.1 <;> decide)

lemma applied {p : Setting} (hp : p ∈ generated) {value : ℤ} (h : 0 ≤ value) (s : Sources) :
    Partly s (p.applied value s) := by
  intro f
  by_cases hf : p.file = f
  · subst hf
    refine ⟨[(p, p.declaration value)], ?_, ?_⟩
    · simpa using ⟨hp, p.accepts_declaration h⟩
    · rw [Setting.applied, Function.update_self]
      rfl
  · refine ⟨[], by simp, ?_⟩
    rw [Setting.applied, Function.update_of_ne (Ne.symm hf)]
    rfl

end Partly

/-- What a generation may have done to the sources when it ends, with an exception or without. -/
def Effect (sources sources' : Sources) : Prop :=
  ∃ middle, Partly sources middle ∧ (sources' = middle ∨ ∃ body,
    (∀ c ∈ body, inClass c = true) ∧ sources' = Function.update middle .fuPool
      (fuPoolPattern.sub ('\n' :: (fuPoolHeader ++ body)) (middle .fuPool)))

lemma Partly.effect {s₁ s₂ : Sources} (h : Partly s₁ s₂) : Effect s₁ s₂ := ⟨s₂, h, .inl rfl⟩

lemma Effect.of_partly {s₁ s₂ s₃ : Sources} (h : Partly s₁ s₂) (h' : Effect s₂ s₃) :
    Effect s₁ s₃ := by
  obtain ⟨middle, hmid, hend⟩ := h'
  exact ⟨middle, h.trans hmid, hend⟩

/-- The computation writes declarations of parameters only, whatever its outcome. -/
def Keeps (x : GenM Unit) : Prop := ∀ s, Partly s (x.run s).2

/-- The effect of a computation, whatever its outcome. -/
def Does (x : GenM Unit) : Prop := ∀ s, Effect s (x.run s).2

lemma Keeps.set {p : Setting} (hp : p ∈ generated) {value : ℤ} (h : 0 ≤ value) :
    Keeps (p.set value) := by
  intro s
  rw [p.set_run]
  exact .applied hp h s

lemma Keeps.bind {x : GenM Unit} {f : Unit → GenM Unit} (hx : Keeps x) (hf : Keeps (f ())) :
    Keeps (x >>= f) := by
  intro s
  exact Exec.run_bind_snd (hx s) (fun _ hs => hs) fun _ s' hs => hs.trans (hf s')

lemma Does.bind {x : GenM Unit} {f : Unit → GenM Unit} (hx : Keeps x) (hf : Does (f ())) :
    Does (x >>= f) := by
  intro s
  exact Exec.run_bind_snd (hx s) (fun _ hs => hs.effect) fun _ s' hs => .of_partly hs (hf s')

lemma Does.entry {i : ℕ} {f : ℤ → GenM Unit} (hnonneg : ∀ a ∈ embedding, 0 ≤ a)
    (hf : ∀ a, 0 ≤ a → Does (f a)) : Does (entry embedding i >>= f) := by
  intro s
  rw [Simulation.entry, listItem]
  cases hget : embedding[i]? with
  | none => exact (Partly.refl s).effect
  | some a => exact hf a (hnonneg a (List.mem_of_getElem? hget)) s

lemma keeps_generatePipelineWidth {width : ℤ} (h : 0 ≤ width) :
    Keeps (generatePipelineWidth width) := by
  have hset (p : Setting) (hp : p ∈ generated) : Keeps (p.set width) := .set hp h
  refine (hset .fetchWidth (by decide)).bind ?_
  refine (hset .decodeWidth (by decide)).bind ?_
  refine (hset .renameWidth (by decide)).bind ?_
  refine (hset .dispatchWidth (by decide)).bind ?_
  refine (hset .issueWidth (by decide)).bind ?_
  refine (hset .wbWidth (by decide)).bind ?_
  refine (hset .commitWidth (by decide)).bind ?_
  exact hset .squashWidth (by decide)

/-- The class of the units is replaced only if there is a class for each number of units. -/
lemma does_generateEu (intAlu intMultDiv fpAlu fpMultDiv : ℤ) :
    Does (generateEu intAlu intMultDiv fpAlu fpMultDiv) := by
  intro s
  have hstop : Effect s s := (Partly.refl s).effect
  rw [generateEu]
  cases h₁ : unitOf intAluUnits intAlu with
  | error => exact hstop
  | ok alu =>
    cases h₂ : unitOf intMultDivUnits intMultDiv with
    | error => exact hstop
    | ok multDiv =>
      cases h₃ : unitOf fpAluUnits fpAlu with
      | error => exact hstop
      | ok fp =>
        cases h₄ : unitOf fpMultDivUnits fpMultDiv with
        | error => exact hstop
        | ok fpMult =>
          exact ⟨s, .refl s, .inr ⟨fuPoolBody alu multDiv fp fpMult,
            inClass_of_mem_fuPoolBody h₁ h₂ h₃ h₄, rfl⟩⟩

/-- A generation writes declarations and at most one class, also if it ends with an exception. -/
lemma does_generateSources (h : ∀ a ∈ embedding, 0 ≤ a) : Does (generateSources embedding) := by
  have hset (p : Setting) (hp : p ∈ generated) {value : ℤ} (hv : 0 ≤ value) :
      Keeps (p.set value) := .set hp hv
  refine .entry h fun _ h₀ => .bind (keeps_generatePipelineWidth h₀) ?_
  refine .entry h fun _ h₁ => .bind (hset .fetchBufferSize (by decide) h₁) ?_
  refine .entry h fun _ h₂ => .bind (hset .fetchQueueSize (by decide) h₂) ?_
  refine .entry h fun _ h₃ => .bind (hset .localPredictorSize (by decide) h₃) ?_
  refine .entry h fun _ h₄ => .bind (hset .globalPredictorSize (by decide) h₄) ?_
  refine .entry h fun _ h₅ => .bind (hset .choicePredictorSize (by decide) h₅) ?_
  refine .entry h fun _ h₆ => .bind (hset .rasSize (by decide) h₆) ?_
  refine .entry h fun _ h₇ => .bind (hset .btbEntries (by decide) h₇) ?_
  refine .entry h fun _ h₈ => .bind (hset .numRobEntries (by decide) h₈) ?_
  refine .entry h fun _ h₉ => .bind (hset .numPhysIntRegs (by decide) h₉) ?_
  refine .entry h fun _ h₁₀ => .bind (hset .numPhysFloatRegs (by decide) h₁₀) ?_
  refine .entry h fun _ h₁₁ => .bind (hset .numIqEntries (by decide) h₁₁) ?_
  refine .entry h fun _ h₁₂ => .bind (hset .lqEntries (by decide) h₁₂) ?_
  refine .entry h fun _ h₁₃ => .bind (hset .sqEntries (by decide) h₁₃) ?_
  refine .entry h fun a₁₄ _ => .entry h fun a₁₅ _ => .entry h fun a₁₆ _ => .entry h fun a₁₇ _ => ?_
  exact does_generateEu a₁₄ a₁₅ a₁₆ a₁₇

/-- The sources after a sequence of generations, each of which may have failed. -/
def afterAll (history : List (List ℤ)) (sources : Sources) : Sources :=
  history.foldl (fun s embedding => ((generateSources embedding).run s).2) sources

/-- The declarations after a sequence of generations. -/
lemma afterAll_eq {history : List (List ℤ)} (h : ∀ e ∈ history, ∀ a ∈ e, 0 ≤ a)
    (sources : Sources) {f : File} (hf : f ≠ .fuPool) :
    ∃ eds : List (Setting × Text),
      (∀ e ∈ eds, e.1 ∈ generated ∧ e.1.file = f ∧ e.1.pattern.Accepts e.2) ∧
        afterAll history sources f = Regex.subAll Setting.pattern eds (sources f) := by
  induction history generalizing sources with
  | nil => exact ⟨[], by simp, rfl⟩
  | cons e history ih =>
    obtain ⟨he, hrest⟩ := List.forall_mem_cons.mp h
    obtain ⟨middle, hmid, hend⟩ := does_generateSources he sources
    have hsame : ((generateSources e).run sources).2 f = middle f := by
      rcases hend with heq | ⟨body, -, heq⟩
      · rw [heq]
      · rw [heq, Function.update_of_ne hf]
    have hlater := ih hrest ((generateSources e).run sources).2
    rw [hsame] at hlater
    exact exists_edits_trans (hmid f) hlater

/-- A generation finds the class of the units behind one empty line for each class that was written
before. -/
lemma sub_afterAll {history : List (List ℤ)} (h : ∀ e ∈ history, ∀ a ∈ e, 0 ≤ a)
    (sources : Sources) : ∃ n ≤ history.length, ∀ new,
      fuPoolPattern.sub new (afterAll history sources .fuPool) =
        fuPoolPattern.sub (List.replicate n '\n' ++ new) (sources .fuPool) := by
  induction history generalizing sources with
  | nil => exact ⟨0, le_refl 0, fun new => rfl⟩
  | cons e history ih =>
    obtain ⟨he, hrest⟩ := List.forall_mem_cons.mp h
    obtain ⟨middle, hmid, hend⟩ := does_generateSources he sources
    obtain ⟨n, hn, hsub⟩ := ih hrest ((generateSources e).run sources).2
    rcases hend with heq | ⟨body, hbody, heq⟩
    · refine ⟨n, by simp only [List.length_cons]; omega, fun new => ?_⟩
      rw [afterAll, List.foldl_cons, ← afterAll, hsub, heq, hmid.fuPool]
    · refine ⟨n + 1, by simp only [List.length_cons]; omega, fun new => ?_⟩
      rw [afterAll, List.foldl_cons, ← afterAll, hsub, heq, Function.update_self, hmid.fuPool]
      exact Regex.sub_sub_block fuPoolHeader_ne inClass_head?_fuPoolHeader
        newline_notMem_fuPoolHeader hbody _

/-- Whatever designs were generated before, successfully or not, a design that can be built leaves
the declarations as if it were the first one. In front of the class of the functional units there
is at most one empty line more for each of the earlier generations. -/
theorem generateSources_forgets (history : List (List ℤ)) (hhistory : ∀ e ∈ history, ∀ a ∈ e, 0 ≤ a)
    (embedding : List ℤ) (alu multDiv fp fpMult : String)
    (h : Buildable embedding alu multDiv fp fpMult) (sources : Sources) :
    ∃ fresh later, (generateSources embedding).run sources = (.ok (), fresh) ∧
      (generateSources embedding).run (afterAll history sources) = (.ok (), later) ∧
      (∀ f, f ≠ .fuPool → later f = fresh f) ∧
      ∃ n ≤ history.length, later .fuPool =
        fuPoolPattern.sub (List.replicate n '\n' ++ fuPool alu multDiv fp fpMult)
          (sources .fuPool) := by
  refine ⟨_, _, h.run sources, h.run (afterAll history sources), ?_, ?_⟩
  · intro f hf
    obtain ⟨eds, hok, heq⟩ := afterAll_eq hhistory sources hf
    have hwritten (s : Sources) : written embedding alu multDiv fp fpMult s f =
        Regex.subAll Setting.pattern (edits embedding f) (s f) := by
      cases f <;> first | rfl | exact absurd rfl hf
    rw [hwritten, hwritten, heq]
    refine Setting.apart.subAll_subAll (fun e he => (hok e he).2.2) h.accepts_edits ?_ _
    intro p hp
    obtain ⟨e, he, rfl⟩ := List.mem_map.mp hp
    obtain ⟨hgen, hfile, -⟩ := hok e he
    refine List.mem_map.mpr ⟨(e.1, e.1.declaration (e.1.value embedding)), ?_, rfl⟩
    exact mem_edits.mpr ⟨hgen, hfile, rfl⟩
  · obtain ⟨n, hn, hsub⟩ := sub_afterAll hhistory sources
    exact ⟨n, hn, hsub _⟩

/-- An embedding that is too short, and whose generation therefore ended with an exception after
the fetch buffer, leaves no trace. -/
theorem generateSources_forgets_short :
    (∀ e ∈ [[(9 : ℤ), 64]], ∀ a ∈ e, 0 ≤ a) ∧
      ∃ fresh later, (generateSources smallDesign).run smallSources = (.ok (), fresh) ∧
        (generateSources smallDesign).run (afterAll [[9, 64]] smallSources) = (.ok (), later) ∧
        later .baseO3Cpu = fresh .baseO3Cpu := by
  have hhistory : ∀ e ∈ [[(9 : ℤ), 64]], ∀ a ∈ e, 0 ≤ a := by decide
  obtain ⟨fresh, later, hfresh, hlater, hsame, -⟩ :=
    generateSources_forgets _ hhistory _ _ _ _ _ smallDesign_buildable smallSources
  exact ⟨hhistory, fresh, later, hfresh, hlater, hsame .baseO3Cpu (by decide)⟩

end ArchExplorer.Simulation
