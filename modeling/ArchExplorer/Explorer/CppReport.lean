import ArchExplorer.Deg.Profiling
import ArchExplorer.Deg.Window
import ArchExplorer.Explorer.Contribution
import ArchExplorer.Lib.Binary64

/-!
# Reports of the C++ analysis

The C++ analysis writes a report of the same shape as the Python one, under its own names of the
bottlenecks and with numbers of six significant digits. The explorer reads the last lines of such a
report, but it has no counter for most of the names.
-/

namespace ArchExplorer.Explorer

open ArchExplorer.Lib ArchExplorer.Lib.Text ArchExplorer.Design
open ArchExplorer.Core (bottleneck)
open ArchExplorer.Deg (Latency ReportFile)

/-! ### Writing a report -/

/-- The six leading digits of a number with more digits, rounded to the nearest, and the exponent of
the first one. -/
def leadingDigits (n : ℕ) : ℕ × ℕ :=
  let e := Nat.log 10 n
  let m := (roundEven (n / 10 ^ (e - 5))).toNat
  if m = 10 ^ 6 then (10 ^ 5, e + 1) else (m, e)

/-- A number of six digits in scientific notation, without the zeros at its end. -/
def scientific (m e : ℕ) : Text :=
  let fraction := (ofNat m).tail.rdropWhile (· = '0')
  (ofNat m).take 1 ++ (if fraction = [] then [] else '.' :: fraction) ++ 'e' :: '+' ::
    (if e < 10 then '0' :: ofNat e else ofNat e)

/-- `os << x` for a double with an integral value, with the default precision of a stream. -/
def streamNat (n : ℕ) : Text :=
  if n < 10 ^ 6 then ofNat n else scientific (leadingDigits n).1 (leadingDigits n).2

def stream (x : Latency) : Text := if x < 0 then '-' :: streamNat x.natAbs else streamNat x.natAbs

/-- The lines of a report, without their line feeds. -/
def reportLines (file : ReportFile) : List Text :=
  ("critical path: ".toList ++ stream file.length) ::
    (file.edges.map fun (u, v, btnk, weight) =>
      u.toList ++ " => ".toList ++ v.toList ++ "\t: ".toList ++ btnk.toList ++ '\t' ::
        stream weight) ++
    [[], "bottleneck: ".toList] ++
    file.bottlenecks.map fun p => p.1.toList ++ ':' :: ' ' :: stream p.2

/-- The text of the report file. -/
def reportText (file : ReportFile) : Text := (reportLines file).flatMap (· ++ ['\n'])

/-- The explorer reads the report, computes the contributions of some benchmarks from it and from
other reports, and has read the length and the counters as they are. -/
def Accepts (file : ReportFile) : Prop :=
  ∃ btnk before after contribution, readReport (reportText file) = .ok btnk ∧
    calcBottleneckContribution (before ++ btnk :: after) = .ok contribution ∧
    btnk.get? "length" = some file.length ∧ ∀ p ∈ file.bottlenecks, btnk.get? p.1 = some p.2

example : stream 999999 = "999999".toList := by decide +kernel

example : stream 1234567 = "1.23457e+06".toList := by decide +kernel

example : stream 9999995 = "1e+07".toList := by decide +kernel

/-! ### Characters of a report -/

/-- A character that is used neither for a number nor for the exponent of one. -/
def Strange (c : Char) : Prop := c.isDigit = false ∧ c ∉ ['-', '+', '.', 'e']

instance (c : Char) : Decidable (Strange c) := inferInstanceAs (Decidable (_ ∧ _))

variable {c : Char}

lemma Strange.notMem_ofNat (h : Strange c) (n : ℕ) : c ∉ ofNat n := by
  intro hc
  have hdigit := Nat.isDigit_of_mem_toDigits (by decide) (by decide) hc
  rw [h.1] at hdigit
  cases hdigit

lemma Strange.notMem_scientific (h : Strange c) (m e : ℕ) : c ∉ scientific m e := by
  have hnat := h.notMem_ofNat
  have hchars := h.2
  simp only [List.mem_cons, List.not_mem_nil, or_false, not_or] at hchars
  have htake : c ∉ (ofNat m).take 1 := fun hc => hnat m (List.take_subset _ _ hc)
  have hfraction : c ∉ (ofNat m).tail.rdropWhile (· = '0') := fun hc =>
    hnat m (List.tail_subset _ ((List.rdropWhile_prefix _ _).subset hc))
  have hexp : c ∉ if e < 10 then '0' :: ofNat e else ofNat e := by
    have hzero : c ≠ '0' := by
      rintro rfl
      exact absurd h.1 (by decide)
    split_ifs <;> simp [hnat, hzero]
  unfold scientific
  simp only [List.mem_append, List.mem_cons, not_or]
  refine ⟨⟨htake, ?_⟩, hchars.2.2.2, hchars.2.1, hexp⟩
  split_ifs <;> simp [hfraction, hchars]

lemma Strange.notMem_stream (h : Strange c) (x : Latency) : c ∉ stream x := by
  have hnat (n : ℕ) : c ∉ streamNat n := by
    unfold streamNat
    split_ifs
    exacts [h.notMem_ofNat n, h.notMem_scientific _ _]
  have hminus : c ≠ '-' := fun heq => h.2 (by simp [heq])
  unfold stream
  split_ifs <;> simp [hnat, hminus]

lemma feed_notMem_repr (v : Deg.Vertex) : '\n' ∉ v.repr.toList := by
  have htype : '\n' ∉ v.type.name.toList := by cases v.type <;> decide
  have hseq : '\n' ∉ (toString v.instSeq).toList := by
    have h := feed_notMem_ofInt v.instSeq
    rwa [← toList_toString] at h
  simp only [Deg.Vertex.repr, String.toList_append, List.mem_append, not_or]
  exact ⟨⟨hseq, by decide⟩, htype⟩

/-- The texts in the rows of the edges have no line feeds. -/
lemma of_reportEdges_run {s s' : Deg.O3Graph} {path : List Deg.Vertex}
    {rows : List (String × String × String × Latency)}
    (h : (Deg.reportEdges path).run s = (.ok rows, s')) :
    ∀ row ∈ rows, '\n' ∉ row.1.toList ∧ '\n' ∉ row.2.1.toList ∧ '\n' ∉ row.2.2.1.toList := by
  match path with
  | []
  | [_]            =>
    obtain rfl : [] = rows := Except.ok.inj (Prod.mk.inj h).1
    nofun
  | u :: v :: rest =>
    rw [Deg.reportEdges] at h
    obtain ⟨edge, s₁, -, h⟩ := Exec.run_bind_eq_ok h
    obtain ⟨rows', s₂, hrows, h⟩ := Exec.run_bind_eq_ok h
    have hname : '\n' ∉ edge.bottleneck.repr.toList := by cases edge.bottleneck <;> decide
    rw [← Except.ok.inj (Prod.mk.inj h).1]
    exact List.forall_mem_cons.mpr ⟨⟨feed_notMem_repr u, feed_notMem_repr v, hname⟩,
      of_reportEdges_run hrows⟩

/-- There is a row for each registered name. -/
lemma names_of_reportBottlenecks {report : Deg.BottleneckReport} {names : List String}
    {rows : List (String × Latency)} (h : Deg.reportBottlenecks report names = .ok rows) :
    rows.map Prod.fst = names := by
  have hrows := forall₂_of_mapM_eq_ok h
  clear h
  induction hrows with
  | nil => rfl
  | cons hrow _ ih =>
    rw [List.map_cons, ih]
    split at hrow
    · rw [← Except.ok.inj hrow]
    · cases hrow

/-! ### Reading a report -/

lemma mem_keys_of_readContribution {line : Text} {btnk btnk' : Dict String ℤ}
    (h : readContribution btnk line = .ok btnk') :
    (∃ name contrib, line.splitOn ':' = [name, contrib] ∧ String.ofList name ∈ btnk'.keys) ∧
      btnk.keys ⊆ btnk'.keys := by
  unfold readContribution at h
  split at h
  next name contrib hsplit =>
    obtain ⟨i, -, h⟩ := bind_eq_ok h
    rw [← Except.ok.inj h]
    refine ⟨⟨name, contrib, hsplit, Dict.mem_keys_set.mpr (.inl rfl)⟩, fun k hk => ?_⟩
    exact Dict.mem_keys_set.mpr (.inr hk)
  all_goals cases h

/-- Every line that has been read has an entry. -/
lemma mem_keys_of_foldlM {lines : List Text} {btnk btnk' : Dict String ℤ}
    (h : lines.foldlM readContribution btnk = .ok btnk') :
    (∀ line ∈ lines, ∃ name contrib, line.splitOn ':' = [name, contrib] ∧
      String.ofList name ∈ btnk'.keys) ∧ btnk.keys ⊆ btnk'.keys := by
  induction lines generalizing btnk with
  | nil =>
    obtain rfl : btnk = btnk' := Except.ok.inj h
    exact ⟨nofun, fun _ => id⟩
  | cons line lines ih =>
    rw [List.foldlM_cons] at h
    obtain ⟨btnk₁, hline, h⟩ := bind_eq_ok h
    obtain ⟨⟨name, contrib, hsplit, hname⟩, hsub₁⟩ := mem_keys_of_readContribution hline
    obtain ⟨hlines, hsub₂⟩ := ih h
    refine ⟨List.forall_mem_cons.mpr ⟨⟨name, contrib, hsplit, hsub₂ hname⟩, hlines⟩, ?_⟩
    exact fun k hk => hsub₂ (hsub₁ hk)

/-! ### No report is accepted -/

/-- What is known of a report file: the texts of its rows, and the names of its counters. -/
structure WellFormed (file : ReportFile) : Prop where
  edges : ∀ row ∈ file.edges,
    '\n' ∉ row.1.toList ∧ '\n' ∉ row.2.1.toList ∧ '\n' ∉ row.2.2.1.toList
  names : file.bottlenecks.map Prod.fst = Deg.registerBottlenecks

lemma wellFormed_of_analyzeWindow {fuel : ℕ} {s s' : Deg.O3Graph} {a : Deg.Analysis}
    (hrun : (Deg.analyzeWindow fuel).run s = (.ok a, s')) : WellFormed a.file := by
  obtain ⟨_, s₁, -, hrun⟩ := Exec.run_bind_eq_ok hrun
  obtain ⟨path, s₂, -, hrun⟩ := Exec.run_bind_eq_ok hrun
  obtain ⟨r, s₃, hprofile, hrun⟩ := Exec.run_bind_eq_ok hrun
  obtain rfl : _ = a := Except.ok.inj (Prod.mk.inj hrun).1
  rw [Deg.profilingCriticalPath] at hprofile
  obtain ⟨_, s₄, -, hprofile⟩ := Exec.run_bind_eq_ok hprofile
  obtain ⟨sink, s₅, -, hprofile⟩ := Exec.run_bind_eq_ok hprofile
  obtain ⟨source, s₆, -, hprofile⟩ := Exec.run_bind_eq_ok hprofile
  dsimp only at hprofile
  split_ifs at hprofile
  · cases (Prod.mk.inj hprofile).1
  obtain ⟨file, s₈, hfile, hprofile⟩ := Exec.run_bind_eq_ok hprofile
  obtain rfl : _ = r := Except.ok.inj (Prod.mk.inj hprofile).1
  rw [Deg.generateReport] at hfile
  obtain ⟨edges, s₉, hedges, hfile⟩ := Exec.run_bind_eq_ok hfile
  obtain ⟨bottlenecks, s₁₀, hbottlenecks, hfile⟩ := Exec.run_bind_eq_ok hfile
  obtain rfl : _ = file := Except.ok.inj (Prod.mk.inj hfile).1
  exact ⟨of_reportEdges_run hedges, names_of_reportBottlenecks (Prod.mk.inj hbottlenecks).1⟩

/-- The line of a counter. -/
def counterLine (p : String × Latency) : Text := p.1.toList ++ ':' :: ' ' :: stream p.2

lemma WellFormed.feed_notMem {file : ReportFile} (h : WellFormed file) :
    ∀ l ∈ reportLines file, '\n' ∉ l := by
  have hnum := Strange.notMem_stream (c := '\n') (by decide)
  have hnames : ∀ name ∈ Deg.registerBottlenecks, '\n' ∉ name.toList := by decide
  intro l hl
  simp only [reportLines, List.mem_append, List.mem_cons, List.mem_map, List.not_mem_nil,
    or_false] at hl
  rcases hl with ((rfl | ⟨row, hrow, rfl⟩) | rfl | rfl) | ⟨p, hp, rfl⟩
  · rw [List.mem_append, not_or]
    exact ⟨by decide, hnum _⟩
  · obtain ⟨hu, hv, hb⟩ := h.edges row hrow
    simp only [List.mem_append, List.mem_cons, not_or]
    exact ⟨⟨⟨⟨⟨hu, by decide⟩, hv⟩, by decide⟩, hb⟩, by decide, hnum _⟩
  · exact List.not_mem_nil
  · decide
  · have hname := hnames p.1 (h.names ▸ List.mem_map_of_mem hp)
    simp only [List.mem_append, List.mem_cons, not_or]
    exact ⟨hname, by decide, by decide, hnum _⟩

/-- The explorer finds the names of the C++ analysis in the lines that it reads. -/
lemma WellFormed.mem_keys {file : ReportFile} (h : WellFormed file) {btnk : Dict String ℤ}
    (hread : readReport (reportText file) = .ok btnk) {name : String}
    (hname : name ∈ Deg.registerBottlenecks) : name ∈ btnk.keys := by
  rw [readReport, reportText, readlines_lines h.feed_notMem] at hread
  obtain ⟨first, -, hread⟩ := bind_eq_ok hread
  obtain ⟨length, -, hread⟩ := bind_eq_ok hread
  obtain ⟨btnk₀, hfold, hread⟩ := bind_eq_ok hread
  have hcolon : ∀ name ∈ Deg.registerBottlenecks, ':' ∉ name.toList := by decide
  -- the last lines are those of the counters
  have hlast : ((reportLines file).map (· ++ ['\n'])).drop
      (((reportLines file).map (· ++ ['\n'])).length - bottleneck.length) =
        file.bottlenecks.map fun p => counterLine p ++ ['\n'] := by
    have hlength : bottleneck.length = file.bottlenecks.length := by
      rw [← List.length_map (f := Prod.fst), h.names]
      rfl
    rw [reportLines, List.map_append, List.map_map]
    refine List.drop_left' ?_
    simp only [List.length_append, List.length_map, hlength]
    omega
  rw [hlast] at hfold
  rw [← h.names] at hname
  obtain ⟨p, hp, rfl⟩ := List.mem_map.mp hname
  obtain ⟨name, contrib, hsplit, hmem⟩ :=
    (mem_keys_of_foldlM hfold).1 _ (List.mem_map_of_mem hp)
  have hcut : (counterLine p ++ ['\n']).splitOn ':' =
      [p.1.toList, ' ' :: stream p.2 ++ ['\n']] := by
    rw [counterLine, List.append_assoc, List.cons_append]
    refine splitOn_append_cons (hcolon _ (h.names ▸ List.mem_map_of_mem hp)) ?_
    simp [Strange.notMem_stream (c := ':') (by decide)]
  rw [hcut] at hsplit
  rw [← (List.cons.inj hsplit).1, String.ofList_toList] at hmem
  rw [← Except.ok.inj hread]
  exact Dict.mem_keys_set.mpr (.inr hmem)

/-- The explorer accepts no report of the C++ analysis, since it has no counter for the misses of
the instruction cache under the name of that analysis. -/
theorem not_accepts_report (fuel : ℕ) (s s' : Deg.O3Graph) (a : Deg.Analysis)
    (hrun : (Deg.analyzeWindow fuel).run s = (.ok a, s')) : ¬Accepts a.file := by
  rintro ⟨btnk, before, after, contribution, hread, hcalc, -⟩
  have hkey : "I-cache miss" ∈ btnk.keys :=
    (wellFormed_of_analyzeWindow hrun).mem_keys hread (by decide)
  obtain ⟨-, husable⟩ := calcBottleneckContribution_returns_iff.mp ⟨_, hcalc⟩
  exact absurd (husable _ (by simp) _ hkey (by decide)).1 (by decide)

/-- Two additions, the second of which waits for the result of the first. -/
def windowOfTwo : Deg.O3Graph :=
  ((Deg.modelSteps 2).run (.init [Deg.addAt 1 [1] 5, Deg.addAt 4 [5] 6])).2

theorem not_accepts_report_two : ∃ a s',
    (Deg.analyzeWindow 100).run windowOfTwo = (.ok a, s') ∧ a.report.length = 10 ∧
      ¬Accepts a.file := by
  have hok : ((Deg.analyzeWindow 100).run windowOfTwo).1.toOption.map (·.report.length) =
      some 10 := by decide +kernel
  rcases hrun : (Deg.analyzeWindow 100).run windowOfTwo with ⟨e | a, s'⟩
  · rw [hrun] at hok
    cases hok
  · rw [hrun] at hok
    exact ⟨a, s', rfl, Option.some.inj hok, not_accepts_report 100 windowOfTwo s' a hrun⟩

/-- The report of the two additions is read, and then its second name is not known. -/
theorem windowOfTwo_keyError :
    (((Deg.analyzeWindow 100).run windowOfTwo).1.toOption.map fun a =>
      (readReport (reportText a.file) >>= fun btnk =>
        calcBottleneckContribution [btnk]).map fun _ => ()) =
      some (.error (.keyError "I-cache miss")) := by
  decide +kernel

end ArchExplorer.Explorer
