import ArchExplorer.Core.Parse
import ArchExplorer.Deg.Parse
import ArchExplorer.Trace.Format

/-!
# The decoders on a trace line

What the two decoders compute from a line of the trace, in terms of the numbers that are written
in it.
-/

namespace ArchExplorer.Trace

open ArchExplorer.Lib
open ArchExplorer.Lib.Text

/-! ### The constructor -/

/-- An integer that fits into an `int`. -/
def toInt (i : ℤ) : Deg.ParseM ℤ :=
  if -2 ^ 31 ≤ i ∧ i < 2 ^ 31 then .ok i else .error (.outOfRange "stoi")

/-- A tick in cycles. -/
def toStamp (i : ℤ) : Deg.ParseM UInt64 :=
  if i.natAbs < 2 ^ 64 then .ok (UInt64.ofInt i / Deg.cyclePerTick)
  else .error (.outOfRange "stoull")

lemma stoi_text (n : Numeral) : Deg.stoi n.text = toInt n.value := by
  rw [Deg.stoi, n.scan_text]
  rfl

lemma setId_fields {segments : List Text} {idx : ℕ} {f : Keyed Numeral}
    (h : segments[idx]? = some (f.text [])) :
    Deg.setId segments idx = toInt f.value.value := by
  rw [Deg.setId, Deg.segment, h, ← stoi_text]
  exact congrArg Deg.stoi ((f.after_text).trans (List.append_nil _))

lemma stamp_fields {segments : List Text} {idx : ℕ} {f : Keyed Numeral}
    (h : segments[idx]? = some (f.text [])) :
    Deg.stamp segments idx = toStamp f.value.value := by
  have hscan : scan (after '=' (f.text [])) = some f.value.value := by
    rw [f.after_text, List.append_nil]
    exact f.value.scan_text
  simp only [Deg.stamp, Deg.segment, h, ok_bind, Deg.stoull, hscan, toStamp]
  split_ifs <;> rfl

lemma setEventTick_fields (l : Line) :
    Deg.setEventTick (l.fields []) = (do
      let stamps ← l.ticks.mapM fun t => toStamp t.value.value
      return .ofStamps fun idx => stamps.getD (idx - 7) 0) := by
  have hstamps : (List.range' 7 20).mapM (Deg.stamp (l.fields [])) =
      l.ticks.mapM fun t => toStamp t.value.value := by
    rw [← l.ticks_length]
    apply mapM_range'
    intro i t ht
    apply stamp_fields
    have hi : i < 20 := by
      rw [← l.ticks_length]
      exact (List.getElem?_eq_some_iff.mp ht).1
    rw [l.getElem?_tick _ hi, ht]
    rfl
  rw [Deg.setEventTick, hstamps]

lemma mapM_stoi (l : List Numeral) :
    (l.map Numeral.text).mapM Deg.stoi = (l.map Numeral.value).mapM toInt := by
  rw [List.mapM_map, List.mapM_map]
  exact congrArg (l.mapM ·) (funext stoi_text)

/-- Without a comma there is at most one numeral. -/
lemma comma_mem_list (n m : Numeral) (l : List Numeral) : ',' ∈ Numeral.list (n :: m :: l) := by
  rw [Numeral.list_cons_cons]
  simp

lemma list_trimList_ne_nil {l : List Numeral} (h : l ≠ []) :
    Numeral.list (Numeral.trimList l) ≠ [] := by
  obtain ⟨n, ns, hl⟩ := List.exists_cons_of_ne_nil (Numeral.trimList_ne_nil h)
  rw [hl]
  exact Numeral.list_cons_ne_nil n ns

/-- The source registers are read one by one. -/
lemma srcRegs_list (l : List Numeral) {behind : Text} (hbehind : ∀ c ∈ behind, isSpace c = true) :
    Deg.srcRegs (Numeral.list l ++ behind) = (l.map Numeral.value).mapM toInt := by
  have hcomma : ',' ∉ behind := fun h => absurd (hbehind _ h) (by decide)
  rw [Deg.srcRegs]
  by_cases hne : l = []
  · subst hne
    rw [show Numeral.list [] = [] from rfl, List.nil_append, if_neg hcomma,
      if_pos (strip_eq_nil hbehind)]
    rfl
  · have hstrip : strip isSpace (Numeral.list l ++ behind) =
        Numeral.list (Numeral.trimList l) :=
      Numeral.strip_list (fun _ h => h) (fun _ => isUnicodeSpace_of_isSpace) hne hbehind
    have htrim := Numeral.trimList_ne_nil hne
    rw [hstrip, ← Numeral.map_value_trimList, ← mapM_stoi]
    split_ifs with hmem hnil
    · -- several registers: the segments are the numerals and none of them is empty
      rw [Numeral.splitCompress_list htrim, List.filter_eq_self.mpr]
      intro t ht
      obtain ⟨n, -, rfl⟩ := List.mem_map.mp ht
      exact decide_eq_true n.text_ne_nil
    · exact absurd hnil (list_trimList_ne_nil hne)
    · -- one register: a second one would come with a comma
      match l, hne with
      | [n], _ =>
        rw [Numeral.trimList, Numeral.trimLast]
        simp [Numeral.list, join]
      | n :: m :: l, _ =>
        exact absurd (List.mem_append_left behind (comma_mem_list n m l)) hmem

lemma setSrcReg_text (f : Keyed Registers) :
    Deg.setSrcReg (f.text []) = (f.value.numerals.map Numeral.value).mapM toInt := by
  rw [Deg.setSrcReg, f.after_text, List.append_nil]
  exact srcRegs_list f.value.numerals f.value.behind_blank

/-- The first destination register, `-1` if there is none. -/
def dstValue : List Numeral → ℤ
  | []     => -1
  | n :: _ => n.value

/-- The destination register as an `int`. Blanks alone are no number. -/
def toDst (r : Registers) : Deg.ParseM ℤ :=
  match r.numerals with
  | []     => if r.behind = [] then return -1 else .error (.invalidArgument "stoi")
  | n :: _ => toInt n.value

lemma scan_blanks {s : Text} (h : ∀ c ∈ s, isSpace c = true) : scan s = none := by
  have hdrop : s.dropWhile isSpace = [] := List.dropWhile_eq_nil_iff.mpr h
  rw [scan, hdrop]
  rfl

/-- The first register ends at the comma or the blank that follows it. -/
lemma dstReg_list (n : Numeral) (l : List Numeral) {behind : Text}
    (hbehind : ∀ c ∈ behind, isSpace c = true) :
    Deg.dstReg (Numeral.list (n :: l) ++ behind) = toInt n.value := by
  have hlist : ∃ rest : Text, Numeral.list (n :: l) ++ behind = n.text ++ rest ∧
      ∀ c ∈ rest.head?, c.isDigit = false := by
    cases l with
    | nil =>
      refine ⟨behind, by simp [Numeral.list, join], ?_⟩
      exact fun c hc => isDigit_eq_false_of_isSpace (hbehind c (List.mem_of_mem_head? hc))
    | cons m l =>
      refine ⟨',' :: (Numeral.list (m :: l) ++ behind), ?_, ?_⟩
      · rw [Numeral.list_cons_cons, List.append_assoc, List.cons_append]
      · intro c hc
        obtain rfl : ',' = c := Option.some.inj hc
        decide
  obtain ⟨rest, hrest, hdigit⟩ := hlist
  have hne : n.text ++ rest ≠ [] := fun h => n.text_ne_nil (List.append_eq_nil_iff.mp h).1
  rw [hrest, Deg.dstReg, if_neg hne, Deg.stoi, n.scan_append hdigit]
  rfl

lemma setDstReg_text (f : Keyed Registers) : Deg.setDstReg (f.text []) = toDst f.value := by
  rw [Deg.setDstReg, f.after_text, List.append_nil]
  obtain ⟨key, ⟨numerals, behind, hbehind⟩, -, -⟩ := f
  cases numerals with
  | nil      => simp only [Written.text, Registers.text, Numeral.list, join, List.map_nil,
      List.intercalate_nil, List.nil_append, Deg.dstReg, Deg.stoi, scan_blanks hbehind, toDst]
  | cons n l => exact dstReg_list n l hbehind

/-- The constructor on a line. -/
def construct (l : Line) : Deg.ParseM Deg.TraceLine := do
  let instType ← Deg.setInstType (Deg.setInst l.mnemonic) l.opClass
  let stamps ← l.ticks.mapM fun t => toStamp t.value.value
  let rob ← toInt l.rob.value.value
  let lq ← toInt l.lq.value.value
  let sq ← toInt l.sq.value.value
  let iq ← toInt l.iq.value.value
  let fu ← toInt l.fu.value.value
  let src ← (l.src.value.numerals.map Numeral.value).mapM toInt
  let dst ← toDst l.dst.value
  return { Deg.Tick.ofStamps fun idx => stamps.getD (idx - 7) 0 with
    inst := .ofList (strip isSpace l.mnemonic), instType, pc := Deg.setPc l.pc,
    src, dst, rob, lq, sq, iq, fu }

/-- The constructor reads what is written in a line. -/
theorem ofSegments_fields (l : Line) : Deg.TraceLine.ofSegments (l.fields []) = construct l := by
  have hseg : ∀ idx s, (l.fields [])[idx]? = some s → Deg.segment (l.fields []) idx = .ok s := by
    intro idx s h
    rw [Deg.segment, h]
  have hid : ∀ idx (f : Keyed Numeral), (l.fields [])[idx]? = some (f.text []) →
      Deg.setId (l.fields []) idx = toInt f.value.value := fun _ _ h => setId_fields h
  rw [Deg.TraceLine.ofSegments, hseg 3 l.pc rfl, hseg 4 l.mnemonic rfl, hseg 5 l.opClass rfl,
    hseg 32 _ (l.getElem?_last [] 5), hseg 33 _ (l.getElem?_last [] 6), setEventTick_fields,
    hid 27 l.rob (l.getElem?_last [] 0), hid 28 l.lq (l.getElem?_last [] 1),
    hid 29 l.sq (l.getElem?_last [] 2), hid 30 l.iq (l.getElem?_last [] 3),
    hid 31 l.fu (l.getElem?_last [] 4)]
  simp only [ok_bind, bind_assoc, pure_bind, setSrcReg_text, setDstReg_text]
  rfl

/-- What the constructor makes of a line. -/
structure Constructed (l : Line) (a : Deg.TraceLine) : Prop where
  inst : a.inst = .ofList (strip isSpace l.mnemonic)
  instType : a.instType.name.toList = strip isSpace l.opClass
  stamps : List.Forall₂ (fun t c => toStamp t.value.value = .ok c) l.ticks a.toTick.toList
  rob : a.rob = l.rob.value.value
  lq : a.lq = l.lq.value.value
  sq : a.sq = l.sq.value.value
  iq : a.iq = l.iq.value.value
  fu : a.fu = l.fu.value.value
  src : a.src = l.src.value.numerals.map Numeral.value
  dst : a.dst = dstValue l.dst.value.numerals

lemma toInt_eq_ok {i j : ℤ} (h : toInt i = .ok j) : j = i := by
  unfold toInt at h
  split_ifs at h
  exact (Except.ok.inj h).symm

lemma mapM_toInt_eq_ok {l r : List ℤ} (h : l.mapM toInt = .ok r) : r = l := by
  have hall := forall₂_of_mapM_eq_ok h
  induction hall with
  | nil => rfl
  | cons hi hl ih => rw [toInt_eq_ok hi, ih (mapM_eq_ok hl)]

lemma toDst_eq_ok {r : Registers} {i : ℤ} (h : toDst r = .ok i) : i = dstValue r.numerals := by
  unfold toDst at h
  split at h
  next heq =>
    split_ifs at h
    rw [heq]
    exact (Except.ok.inj h).symm
  next n l heq =>
    rw [heq]
    exact toInt_eq_ok h

lemma setInstType_eq_ok {inst line : Text} {t : Deg.InstType}
    (h : Deg.setInstType inst line = .ok t) : t.name.toList = strip isSpace line := by
  unfold Deg.setInstType at h
  split at h
  next t' hfind =>
    cases h
    simpa using List.find?_some hfind
  next => cases h

/-- A line that the constructor accepts. -/
theorem constructed_of_ok {l : Line} {a : Deg.TraceLine} (h : construct l = .ok a) :
    Constructed l a := by
  obtain ⟨instType, htype, h⟩ := bind_eq_ok h
  obtain ⟨stamps, hstamps, h⟩ := bind_eq_ok h
  obtain ⟨rob, hrob, h⟩ := bind_eq_ok h
  obtain ⟨lq, hlq, h⟩ := bind_eq_ok h
  obtain ⟨sq, hsq, h⟩ := bind_eq_ok h
  obtain ⟨iq, hiq, h⟩ := bind_eq_ok h
  obtain ⟨fu, hfu, h⟩ := bind_eq_ok h
  obtain ⟨src, hsrc, h⟩ := bind_eq_ok h
  obtain ⟨dst, hdst, h⟩ := bind_eq_ok h
  have hall := forall₂_of_mapM_eq_ok hstamps
  cases h
  exact {
    inst := rfl
    instType := setInstType_eq_ok htype
    stamps := by rwa [Deg.Tick.toList_ofStamps _ (hall.length_eq ▸ l.ticks_length)]
    rob := toInt_eq_ok hrob
    lq := toInt_eq_ok hlq
    sq := toInt_eq_ok hsq
    iq := toInt_eq_ok hiq
    fu := toInt_eq_ok hfu
    src := mapM_toInt_eq_ok hsrc
    dst := toDst_eq_ok hdst }

/-! ### The parser -/

lemma int_text (n : Numeral) : Core.int n.text = .ok n.value := by
  rw [Core.int, n.read_text]

lemma int_body (n : Numeral) : Core.int n.body = .ok n.value := by
  rw [Core.int, n.read_body]

lemma itemValue_fields {α : Type} [Written α] {inst : List Text} {idx : ℕ} {f : Keyed α}
    {eol : Text} (heol : ∀ c ∈ eol, isSpace c = true) (h : inst[idx]? = some (f.text eol)) :
    Core.itemValue inst idx = .ok (strip isUnicodeSpace (Written.text f.value ++ eol)) := by
  rw [Core.itemValue, Core.item, h, ok_bind, f.splitOn_text heol]
  rfl

lemma itemValue_numeral {inst : List Text} {idx : ℕ} {f : Keyed Numeral}
    (h : inst[idx]? = some (f.text [])) : Core.itemValue inst idx = .ok f.value.body := by
  rw [itemValue_fields (by simp) h, List.append_nil]
  exact congrArg _ f.value.strip_unicode_text

lemma extractTick_fields {inst : List Text} {idx : ℕ} {f : Keyed Numeral}
    (h : inst[idx]? = some (f.text [])) :
    Core.extractTick inst idx = Core.tickToCycle f.value.value := by
  rw [Core.extractTick, itemValue_numeral h, ok_bind, int_body, ok_bind]

lemma constructTick_fields (l : Line) (eol : Text) :
    Core.constructTick (l.fields eol) = (do
      let stamps ← l.ticks.mapM fun t => Core.tickToCycle t.value.value
      return .ofStamps fun idx => stamps.getD (idx - 7) 0) := by
  have hstamps : (List.range' 7 20).mapM (Core.extractTick (l.fields eol)) =
      l.ticks.mapM fun t => Core.tickToCycle t.value.value := by
    rw [← l.ticks_length]
    apply mapM_range'
    intro i t ht
    apply extractTick_fields
    have hi : i < 20 := by
      rw [← l.ticks_length]
      exact (List.getElem?_eq_some_iff.mp ht).1
    rw [l.getElem?_tick _ hi, ht]
    rfl
  rw [Core.constructTick, hstamps]

/-- The source registers, a `-1` in the place of an empty list. -/
def toSrc : List Numeral → List ℤ
  | []     => [-1]
  | n :: l => (n :: l).map Numeral.value

lemma mapM_int (l : List Numeral) :
    (l.map Numeral.text).mapM Core.int = .ok (l.map Numeral.value) := by
  apply mapM_eq_ok
  rw [List.forall₂_map_left_iff, List.forall₂_map_right_iff, List.forall₂_same]
  exact fun n _ => int_text n

/-- Stripping blanks of both kinds leaves a list of registers. -/
lemma strip_registers (r : Registers) {eol : Text} (heol : ∀ c ∈ eol, isSpace c = true) :
    strip isUnicodeSpace (r.text ++ eol) = Numeral.list (Numeral.trimList r.numerals) := by
  have hblank : ∀ c ∈ r.behind ++ eol, isUnicodeSpace c = true := by
    intro c hc
    rcases List.mem_append.mp hc with hc | hc
    exacts [isUnicodeSpace_of_isSpace (r.behind_blank c hc),
      isUnicodeSpace_of_isSpace (heol c hc)]
  rw [Registers.text, List.append_assoc]
  by_cases hne : r.numerals = []
  · rw [hne, show Numeral.list [] = [] from rfl, List.nil_append, strip_eq_nil hblank]
    rfl
  · exact Numeral.strip_list (fun _ => isUnicodeSpace_of_isSpace) (fun _ h => h) hne hblank

lemma parseSrc_list (l : List Numeral) :
    Core.parseSrc (Numeral.list (Numeral.trimList l)) = .ok (toSrc l) := by
  match l with
  | [] => rfl
  | n :: l =>
    have hne : n :: l ≠ [] := List.cons_ne_nil n l
    rw [Core.parseSrc, if_neg (list_trimList_ne_nil hne),
      Numeral.splitOn_list (Numeral.trimList_ne_nil hne), mapM_int, Numeral.map_value_trimList,
      toSrc]

/-- The destination register. Several registers are not a number. -/
def readDst : List Numeral → Core.ParseM ℤ
  | []          => .ok (-1)
  | [n]         => .ok n.value
  | n :: m :: l => .error (.valueError (.ofList (Numeral.list (Numeral.trimList (n :: m :: l)))))

lemma parseDst_list (l : List Numeral) :
    Core.parseDst (Numeral.list (Numeral.trimList l)) = readDst l := by
  match l with
  | [] => rfl
  | [n] =>
    have hne : [n] ≠ [] := List.cons_ne_nil n []
    rw [Core.parseDst, if_neg (list_trimList_ne_nil hne), Numeral.trimList, Numeral.trimLast]
    simp only [Numeral.list, join, List.map_cons, List.map_nil, List.intercalate_singleton]
    exact int_text _
  | n :: m :: l =>
    have hne : n :: m :: l ≠ [] := List.cons_ne_nil n _
    have hcomma : ',' ∈ Numeral.list (Numeral.trimList (n :: m :: l)) := by
      rw [Numeral.trimList, Numeral.trimLast]
      obtain ⟨k, ks, hk⟩ :=
        List.exists_cons_of_ne_nil (Numeral.trimLast_ne_nil (List.cons_ne_nil m l))
      rw [hk]
      exact comma_mem_list _ k ks
    have hread := read_eq_none hcomma (by decide) (by decide) (by decide) (by decide) (by decide)
    rw [Core.parseDst, if_neg (list_trimList_ne_nil hne), Core.int, hread, readDst]

/-- The parser on a line. -/
def parse (l : Line) : Core.ParseM Core.TraceLine := do
  let stamps ← l.ticks.mapM fun t => Core.tickToCycle t.value.value
  let dst ← readDst l.dst.value.numerals
  return { Core.Cycle.ofStamps fun idx => stamps.getD (idx - 7) 0 with
    inst := .ofList (strip isUnicodeSpace l.mnemonic)
    instType := .ofList (strip isUnicodeSpace l.opClass)
    rob := .ofList l.rob.value.body, lq := .ofList l.lq.value.body
    sq := .ofList l.sq.value.body, iq := .ofList l.iq.value.body
    fu := .ofList l.fu.value.body
    src := toSrc l.src.value.numerals, dst }

/-- The parser reads what is written in a line, whatever blanks end it. -/
theorem ofItems_fields (l : Line) {eol : Text} (heol : ∀ c ∈ eol, isSpace c = true) :
    Core.TraceLine.ofItems (l.fields eol) = parse l := by
  have hnum : ∀ idx (f : Keyed Numeral), (l.fields eol)[idx]? = some (f.text []) →
      Core.itemValue (l.fields eol) idx = .ok f.value.body := fun _ _ h => itemValue_numeral h
  have hregs : ∀ idx (f : Keyed Registers) e, (∀ c ∈ e, isSpace c = true) →
      (l.fields eol)[idx]? = some (f.text e) → Core.itemValue (l.fields eol) idx =
        .ok (Numeral.list (Numeral.trimList f.value.numerals)) := by
    intro idx f e he h
    rw [itemValue_fields he h]
    exact congrArg _ (strip_registers f.value he)
  have hitem : ∀ idx s, (l.fields eol)[idx]? = some s → Core.item (l.fields eol) idx = .ok s := by
    intro idx s h
    rw [Core.item, h]
  rw [Core.TraceLine.ofItems, hitem 4 l.mnemonic rfl, hitem 5 l.opClass rfl,
    constructTick_fields, hnum 27 l.rob (l.getElem?_last eol 0),
    hnum 28 l.lq (l.getElem?_last eol 1), hnum 29 l.sq (l.getElem?_last eol 2),
    hnum 30 l.iq (l.getElem?_last eol 3), hnum 31 l.fu (l.getElem?_last eol 4),
    hregs 32 l.src [] (by simp) (l.getElem?_last eol 5),
    hregs 33 l.dst eol heol (l.getElem?_last eol 6)]
  simp only [ok_bind, bind_assoc, pure_bind, parseSrc_list, parseDst_list]
  rfl

/-- What the parser makes of a line. -/
structure Parsed (l : Line) (b : Core.TraceLine) : Prop where
  inst : b.inst = .ofList (strip isUnicodeSpace l.mnemonic)
  instType : b.instType = .ofList (strip isUnicodeSpace l.opClass)
  stamps : List.Forall₂ (fun t c => Core.tickToCycle t.value.value = .ok c) l.ticks
    b.toCycle.toList
  rob : b.rob = .ofList l.rob.value.body
  lq : b.lq = .ofList l.lq.value.body
  sq : b.sq = .ofList l.sq.value.body
  iq : b.iq = .ofList l.iq.value.body
  fu : b.fu = .ofList l.fu.value.body
  src : b.src = toSrc l.src.value.numerals
  dst : b.dst = dstValue l.dst.value.numerals
  single : l.dst.value.numerals.length ≤ 1

lemma readDst_eq_ok {l : List Numeral} {i : ℤ} (h : readDst l = .ok i) :
    i = dstValue l ∧ l.length ≤ 1 := by
  match l with
  | []  => exact ⟨(Except.ok.inj h).symm, Nat.zero_le 1⟩
  | [n] => exact ⟨(Except.ok.inj h).symm, le_refl 1⟩

/-- A line that the parser accepts. -/
theorem parsed_of_ok {l : Line} {b : Core.TraceLine} (h : parse l = .ok b) : Parsed l b := by
  obtain ⟨stamps, hstamps, h⟩ := bind_eq_ok h
  obtain ⟨dst, hdst, h⟩ := bind_eq_ok h
  have hall := forall₂_of_mapM_eq_ok hstamps
  cases h
  exact {
    inst := rfl
    instType := rfl
    stamps := by rwa [Core.Cycle.toList_ofStamps _ (hall.length_eq ▸ l.ticks_length)]
    rob := rfl
    lq := rfl
    sq := rfl
    iq := rfl
    fu := rfl
    src := rfl
    dst := (readDst_eq_ok hdst).1
    single := (readDst_eq_ok hdst).2 }

/-! ### Time stamps -/

lemma tickToCycle_eq_ok {t c : ℤ} (h : Core.tickToCycle t = .ok c) :
    c = roundEven (toDouble (t / 1000)) := by
  unfold Core.tickToCycle at h
  split_ifs at h
  exact (Except.ok.inj h).symm

lemma toNat_ofInt_natCast {n : ℕ} (h : n < 2 ^ 64) : (UInt64.ofInt n).toNat = n := by
  have hmod : (n : ℤ) % 2 ^ 64 = n :=
    Int.emod_eq_of_lt (Int.natCast_nonneg n) (by exact_mod_cast h)
  rw [UInt64.ofInt, UInt64.toNat_ofNat', hmod, Int.toNat_natCast]
  exact Nat.mod_eq_of_lt h

/-! ### The whole line -/

/-- The ends of a line as the parser gets it: the last line of a file may lack its line feed. -/
def IsEol (eol : Text) : Prop := eol = [] ∨ eol = ['\n']

lemma IsEol.blank {eol : Text} (h : IsEol eol) : ∀ c ∈ eol, isSpace c = true := by
  rcases h with rfl | rfl <;> simp [isSpace]

lemma ofLine_text (l : Line) (seq : ℕ) :
    Deg.RiscvInstruction.ofLine l.text seq = (do
      let inst ← construct l
      return ⟨inst, seq⟩) := by
  rw [Deg.RiscvInstruction.ofLine, l.splitCompress_text, ofSegments_fields]

lemma parse_text (l : Line) (seq : ℕ) {eol : Text} (heol : IsEol eol) :
    Core.RiscvInstruction.parse seq (l.text ++ eol) = (do
      let line ← parse l
      return ⟨line, seq⟩) := by
  rw [Core.RiscvInstruction.parse, l.splitOn_text heol.blank, ofItems_fields l heol.blank]

end ArchExplorer.Trace
