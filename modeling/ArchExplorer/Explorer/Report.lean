import ArchExplorer.Core.GoldenLength
import ArchExplorer.Lib.Text
import ArchExplorer.Explorer.Removal

/-!
# Reports of the bottlenecks

The explorer reads the report of each benchmark: the length of the critical path from the first
line, and the delay of each bottleneck from the last lines. It divides the delays by the lengths and
takes the average over the benchmarks.
-/

namespace ArchExplorer.Explorer

open ArchExplorer.Lib ArchExplorer.Lib.Text ArchExplorer.Design
open ArchExplorer.Core (bottleneck)

/-! ### Reading a report -/

/-- `int(s)` for an ASCII text. -/
def int (s : Text) : Except PyError ℤ :=
  match read s with
  | some i => .ok i
  | none   => .error (.valueError ("invalid literal for int() with base 10: " ++ .ofList s))

/-- `btnk_name, contrib = line.split(":")`, and the entry of the bottleneck. -/
def readContribution (btnk : Dict String ℤ) (line : Text) : Except PyError (Dict String ℤ) :=
  match line.splitOn ':' with
  | [name, contrib] => do return btnk.set (.ofList name) (← int contrib)
  | [_]             => .error (.valueError "not enough values to unpack (expected 2, got 1)")
  | _               => .error (.valueError "too many values to unpack (expected 2)")

/-- What `get_bottleneck_contribution` reads from a file. -/
def readReport (rpt : Text) : Except PyError (Dict String ℤ) := do
  let cnt := readlines rpt
  let first ← listItem cnt 0
  let length ← int ((first.splitOn ':').getLastD [])
  let btnk ← (cnt.drop (cnt.length - bottleneck.length)).foldlM readContribution .empty
  return btnk.set "length" length

/-! ### Contributions -/

/-- Add the ratio of a bottleneck of a benchmark to those of the benchmarks before. -/
def addRatio (btnk : Dict String ℤ) (contribution : Dict String ℚ) (c : String × ℤ) :
    Except PyError (Dict String ℚ) := do
  let length ← getItem btnk "length"
  if length = 0 then .error .zeroDivisionError
  else
    let total ← getItem contribution c.1
    return contribution.set c.1 (total + c.2 / length)

def addContribution (contribution : Dict String ℚ) (btnk : Dict String ℤ) :
    Except PyError (Dict String ℚ) :=
  (btnk.items.filter fun c => c.1 ≠ "length").foldlM (addRatio btnk) contribution

/-- The average ratio of each bottleneck over the benchmarks. -/
def calcBottleneckContribution (btnks : List (Dict String ℤ)) : Except PyError (Dict String ℚ) := do
  let zeros : Dict String ℚ := bottleneck.foldl (fun d btnk => d.set btnk 0) .empty
  let contribution ← btnks.foldlM addContribution zeros
  if btnks.length = 0 then .error .zeroDivisionError
  else return contribution.items.foldl (fun d c => d.set c.1 (c.2 / btnks.length)) contribution

/-! ### Reading what was written -/

section Lines

lemma toList_toString (i : ℤ) : (toString i).toList = ofInt i := by
  cases i <;> simp [ofInt, ofNat, toString, Int.repr, Nat.repr]

lemma feed_notMem_ofInt (i : ℤ) : '\n' ∉ ofInt i := by
  intro h
  have hnum := (Numeral.ofInt [] [] (by simp) (by simp) i).digits_digit '\n'
  rw [ofInt] at h
  have hdigits : '\n' ∈ ofNat i.natAbs := by
    split_ifs at h
    · exact (List.mem_cons.mp h).resolve_left (by decide)
    · exact h
  exact absurd (hnum hdigits) (by decide)

/-- The line of a bottleneck, without its line feed. -/
def contributionLine (p : String × ℤ) : Text := p.1.toList ++ ':' :: ' ' :: ofInt p.2

/-- A line is cut into the name and the number, which is read back. -/
lemma splitOn_line {name : Text} (h : ':' ∉ name) (i : ℤ) :
    ∃ s, (name ++ ':' :: ' ' :: ofInt i ++ ['\n']).splitOn ':' = [name, s] ∧ int s = .ok i := by
  let n := Numeral.ofInt [' '] ['\n'] (List.forall_mem_singleton.mpr rfl)
    (List.forall_mem_singleton.mpr rfl) i
  have hline : name ++ ':' :: ' ' :: ofInt i ++ ['\n'] = name ++ ':' :: n.text := by
    rw [Numeral.text_ofInt]
    simp
  have hcolon : ':' ∉ n.text := n.notMem_text (by decide) (by decide) (by decide) (by decide)
  refine ⟨n.text, by rw [hline, splitOn_append_cons h hcolon], ?_⟩
  simp only [int, n.read_text]
  rw [Numeral.value_ofInt]

lemma readContribution_line {p : String × ℤ} (h : ':' ∉ p.1.toList) (btnk : Dict String ℤ) :
    readContribution btnk (contributionLine p ++ ['\n']) = .ok (btnk.set p.1 p.2) := by
  obtain ⟨s, hsplit, hint⟩ := splitOn_line h p.2
  rw [readContribution, contributionLine, hsplit]
  simp only [hint, String.ofList_toList]
  rfl

lemma foldlM_readContribution {ps : List (String × ℤ)} (h : ∀ p ∈ ps, ':' ∉ p.1.toList)
    (btnk : Dict String ℤ) :
    (ps.map fun p => contributionLine p ++ ['\n']).foldlM readContribution btnk =
      .ok (ps.foldl (fun d p => d.set p.1 p.2) btnk) := by
  induction ps generalizing btnk with
  | nil => rfl
  | cons p ps ih =>
    rw [List.forall_mem_cons] at h
    rw [List.map_cons, List.foldlM_cons, readContribution_line h.1, ok_bind, ih h.2]
    rfl

/-- A report with the length in its first line and the bottlenecks in the last ones is read back,
whatever stands between them. -/
lemma readReport_lines {head : Text} {length : ℤ} {mid : List Text} {btnks : Dict String ℤ}
    (hhead : ':' ∉ head ∧ '\n' ∉ head) (hmid : ∀ l ∈ mid, '\n' ∉ l)
    (hkeys : btnks.keys = bottleneck) :
    readReport (((head ++ ':' :: ' ' :: ofInt length) :: mid ++
      btnks.items.map contributionLine).flatMap (· ++ ['\n'])) =
        .ok (btnks.set "length" length) := by
  have hnames : ∀ k ∈ bottleneck, ':' ∉ k.toList ∧ '\n' ∉ k.toList := by decide
  have hitems : ∀ p ∈ btnks.items, ':' ∉ p.1.toList ∧ '\n' ∉ p.1.toList := fun p hp =>
    hnames p.1 (hkeys ▸ List.mem_map_of_mem hp)
  have hline {name : Text} (h : '\n' ∉ name) (i : ℤ) : '\n' ∉ name ++ ':' :: ' ' :: ofInt i := by
    simp [h, feed_notMem_ofInt]
  have hfeed : ∀ l ∈ (head ++ ':' :: ' ' :: ofInt length) :: mid ++
      btnks.items.map contributionLine, '\n' ∉ l := by
    rw [List.cons_append, List.forall_mem_cons]
    refine ⟨hline hhead.2 length, List.forall_mem_append.mpr ⟨hmid, ?_⟩⟩
    rintro _ hl
    obtain ⟨p, hp, rfl⟩ := List.mem_map.mp hl
    exact hline (hitems p hp).2 p.2
  obtain ⟨s, hsplit, hint⟩ := splitOn_line hhead.1 length
  -- the last lines are those of the bottlenecks
  have hdrop : (((head ++ ':' :: ' ' :: ofInt length) :: mid ++
      btnks.items.map contributionLine).map (· ++ ['\n'])).drop
        ((((head ++ ':' :: ' ' :: ofInt length) :: mid ++
          btnks.items.map contributionLine).map (· ++ ['\n'])).length - bottleneck.length) =
      btnks.items.map fun p => contributionLine p ++ ['\n'] := by
    have hlength : bottleneck.length = btnks.items.length := by
      rw [← hkeys, Dict.keys, List.length_map]
    rw [List.map_append, List.map_map]
    refine List.drop_left' ?_
    simp only [List.length_append, List.length_map, hlength]
    omega
  rw [readReport, readlines_lines hfeed]
  simp only [hdrop, foldlM_readContribution fun p hp => (hitems p hp).1]
  rw [List.cons_append, List.map_cons]
  change (int ((List.splitOn ':' _).getLastD []) >>= _) = _
  rw [hsplit]
  change (int s >>= _) = _
  rw [hint]
  rw [Dict.foldl_set_items]
  rfl

end Lines

/-! ### The report of the Python analysis -/

section Python

open ArchExplorer.Core (Graph GraphM Node Networkx)

/-- The computation does not charge anything to a bottleneck. -/
def Uncharged {α : Type} (x : GraphM α) : Prop := ∀ s, (x.run s).2.bottleneck = s.bottleneck

lemma Uncharged.bind {α β : Type} {x : GraphM α} {f : α → GraphM β} (hx : Uncharged x)
    (hf : ∀ a, Uncharged (f a)) : Uncharged (x >>= f) := by
  intro s
  rw [Exec.run_bind]
  rcases hr : x.run s with ⟨_ | a, s₁⟩
  · rw [← hx s, hr]
  · rw [← hx s, hr]
    exact hf a s₁

lemma uncharged_addVirtualEdge (u v : Node) : Uncharged (Core.addVirtualEdge u v) := by
  intro s
  rw [Core.run_addVirtualEdge, Graph.join]
  split_ifs <;> rfl

lemma uncharged_pathHead (nx : Networkx) (first : String) (path : List String) :
    Uncharged (Core.pathHead nx first path) := by
  refine .bind (fun _ => rfl) fun s => .bind (fun _ => rfl) fun source => ?_
  split
  · exact fun _ => rfl
  · exact .bind (fun _ => rfl) fun _ => .bind (uncharged_addVirtualEdge _ _) fun _ _ => rfl

lemma uncharged_pathTail (nx : Networkx) (last : String) (path : List String) :
    Uncharged (Core.pathTail nx last path) := by
  refine .bind (fun _ => rfl) fun s => .bind (fun _ => rfl) fun sink => ?_
  split
  · exact fun _ => rfl
  · exact .bind (fun _ => rfl) fun _ => .bind (uncharged_addVirtualEdge _ _) fun _ _ => rfl

lemma uncharged_longestPathImpl (nx : Networkx) : Uncharged (Core.longestPathImpl nx) := by
  refine .bind (fun _ => rfl) fun s => .bind (fun _ => rfl) fun path => ?_
  split
  · exact fun _ => rfl
  · refine .bind (uncharged_pathHead _ _ _) fun path => ?_
    split
    · exact fun _ => rfl
    · exact uncharged_pathTail _ _ _

/-- The path has been followed along edges of the graph, and the counters have kept their names. -/
lemma of_accumulate {s s' : Graph} {path : List String}
    (h : (Core.accumulate path).run s = (.ok (), s')) :
    (s'.graph = s.graph ∧ s'.criticalPath = s.criticalPath) ∧
      s'.bottleneck.keys = s.bottleneck.keys ∧ path.IsChain s.graph.Adj := by
  match path with
  | []
  | [_]            =>
    obtain rfl : s = s' := (Prod.mk.inj h).2
    exact ⟨⟨rfl, rfl⟩, rfl, by simp⟩
  | u :: v :: rest =>
    rw [Core.accumulate, Exec.run_bind_ok (Exec.run_get s)] at h
    obtain ⟨edge, s₁, hedge, h⟩ := Exec.run_bind_eq_ok h
    obtain ⟨hedge, rfl⟩ := Prod.mk.inj hedge
    cases hd : s.bottleneck.get? edge.bottleneck.name with
    | none   =>
      rw [hd] at h
      cases (Prod.mk.inj h).1
    | some d =>
      rw [hd, Exec.run_bind_ok (Exec.run_modify _ s)] at h
      obtain ⟨hsame, hkeys, hchain⟩ := of_accumulate h
      refine ⟨hsame, ?_, List.isChain_cons_cons.mpr ⟨?_, hchain⟩⟩
      · rw [hkeys]
        exact (Dict.keys_set _ _ _).trans (if_pos (Dict.mem_keys_of_get? hd))
      · unfold Graph.getEdge at hedge
        split at hedge
        next e he => exact DiGraph.adj_iff.mpr ⟨e, he⟩
        next => cases hedge

lemma feed_notMem_name (n : Node) : '\n' ∉ n.name.toList := by
  have hstage : '\n' ∉ n.stage.value.toList := by cases n.stage <;> decide
  have hseq : '\n' ∉ (toString n.seq).toList := by
    have h := feed_notMem_ofInt n.seq
    rwa [← toList_toString] at h
  simp only [Node.name, Core.uniqueName, String.toList_append, List.mem_append, not_or]
  exact ⟨⟨hseq, by decide⟩, hstage⟩

/-- The edges of the path are written line by line. -/
lemma of_reportEdges {s : Graph} {path : List String} {text : String}
    (h : Core.reportEdges s path = .ok text) :
    ∃ ls : List Text, text.toList = ls.flatMap (· ++ ['\n']) ∧ ∀ l ∈ ls, '\n' ∉ l := by
  match path with
  | []
  | [_]            =>
    obtain rfl : "" = text := Except.ok.inj h
    exact ⟨[], rfl, nofun⟩
  | u :: v :: rest =>
    rw [Core.reportEdges] at h
    obtain ⟨edge, -, h⟩ := bind_eq_ok h
    obtain ⟨lines, hlines, h⟩ := bind_eq_ok h
    obtain ⟨ls, hls, hfeed⟩ := of_reportEdges hlines
    have hname : '\n' ∉ edge.bottleneck.name.toList := by cases edge.bottleneck <;> decide
    have hdelay : '\n' ∉ (toString edge.delay).toList :=
      toList_toString edge.delay ▸ feed_notMem_ofInt edge.delay
    refine ⟨(edge.u.name ++ "\t=>\t" ++ edge.v.name ++ ": " ++ edge.bottleneck.name ++ "\t" ++
      toString edge.delay).toList :: ls, ?_, List.forall_mem_cons.mpr ⟨?_, hfeed⟩⟩
    · rw [← Except.ok.inj h, List.flatMap_cons, ← hls]
      simp only [String.toList_append, List.append_assoc]
      rfl
    · simp only [String.toList_append, List.mem_append, not_or]
      exact ⟨⟨⟨⟨⟨⟨feed_notMem_name _, by decide⟩, feed_notMem_name _⟩, by decide⟩, hname⟩,
        by decide⟩, hdelay⟩

/-- The lines of a report. -/
lemma of_generateReport {s : Graph} {text : String}
    (h : Core.generateReport s = .ok (some text)) :
    ∃ mid : List Text, (∀ l ∈ mid, '\n' ∉ l) ∧
      text.toList = (("critical path".toList ++ ':' :: ' ' :: ofInt s.bottleneck.values.sum) ::
        mid ++ s.bottleneck.items.map contributionLine).flatMap (· ++ ['\n']) := by
  unfold Core.generateReport at h
  split at h
  · exact absurd (Except.ok.inj h) nofun
  obtain ⟨sink, -, h⟩ := bind_eq_ok h
  obtain ⟨source, -, h⟩ := bind_eq_ok h
  dsimp only at h
  split_ifs at h
  obtain ⟨lines, hlines, h⟩ := bind_eq_ok h
  obtain ⟨ls, hls, hfeed⟩ := of_reportEdges hlines
  refine ⟨ls ++ [[], "bottleneck:".toList], ?_, ?_⟩
  · refine List.forall_mem_append.mpr ⟨hfeed, ?_⟩
    decide
  · have hcounters : (String.join (s.bottleneck.items.map fun p =>
        p.1 ++ ": " ++ toString p.2 ++ "\n")).toList =
        (s.bottleneck.items.map contributionLine).flatMap (· ++ ['\n']) := by
      rw [String.toList_join, List.flatMap_map, List.flatMap_map]
      refine List.flatMap_congr fun p _ => ?_
      simp only [String.toList_append, toList_toString, contributionLine, List.append_assoc]
      rfl
    rw [← Option.some.inj (Except.ok.inj h)]
    simp only [String.toList_append, hcounters, hls, toList_toString, List.flatMap_append,
      List.flatMap_cons, List.cons_append, List.append_assoc]
    rfl

/-- The critical path has been found on a graph whose counters have the registered names, and the
delays add up to the time between the first fetch and the last commit. Then the report is written,
and reading it yields the counters and the length. -/
theorem report_roundTrip (nx : Networkx) (s s' : Graph) (source sink : Node)
    (hkeys : s.bottleneck.keys = bottleneck) (hrun : (Core.longestPath nx).run s = (.ok (), s'))
    (hsource : s'.sourceNode = .ok source) (hsink : s'.sinkNode = .ok sink)
    (hgolden : sink.timestamp - source.timestamp = s'.bottleneck.values.sum) :
    s'.bottleneck.keys = bottleneck ∧ ∃ text, Core.generateReport s' = .ok (some text) ∧
      readReport text.toList = .ok (s'.bottleneck.set "length" s'.bottleneck.values.sum) := by
  obtain ⟨path, s₁, hpath, hrest⟩ := Exec.run_bind_eq_ok hrun
  rw [Exec.run_bind_ok (Exec.run_modify _ s₁)] at hrest
  obtain ⟨⟨hgraph, hcritical⟩, hnames, hchain⟩ := of_accumulate hrest
  have hkeys' : s'.bottleneck.keys = bottleneck := by
    rw [hnames, ← hkeys, ← uncharged_longestPathImpl nx s, hpath]
  obtain ⟨text, htext⟩ :=
    Core.generateReport_returns hcritical hsource hsink hgolden (hgraph ▸ hchain)
  obtain ⟨mid, hmid, heq⟩ := of_generateReport htext
  refine ⟨hkeys', text, htext, ?_⟩
  rw [heq, readReport_lines (by decide) hmid hkeys']

/-- The report of a mispredicted branch and a load. -/
theorem report_roundTrip_branch :
    ∃ s s' source sink, (Core.constructGraph Core.branchTrace).run .init = (.ok (), s) ∧
      s.bottleneck.keys = bottleneck ∧ (Core.longestPath .choice).run s = (.ok (), s') ∧
      s'.sourceNode = .ok source ∧ s'.sinkNode = .ok sink ∧
      sink.timestamp - source.timestamp = s'.bottleneck.values.sum ∧
      ∃ text, Core.generateReport s' = .ok (some text) ∧
        readReport text.toList = .ok (s'.bottleneck.set "length" s'.bottleneck.values.sum) := by
  obtain ⟨s, hrun, hs⟩ := Core.constructGraph_returns Core.branchTrace
  have hd := Core.descending_stream Core.branchTrace
  have hmem : ∀ line ∈ Core.branchTrace, line.isMem = true → line.complete = line.memory := by
    decide
  have hcontrol : ∀ line ∈ Core.branchTrace, line.isControl = true → line.isMem = false := by
    decide +kernel
  have hlegal : ∀ inst ∈ (Core.instructionStream Core.branchTrace).reverse, inst.Legal :=
    fun inst h => Core.legal_of_mem_stream (fun line h => ⟨hmem line h, hcontrol line h⟩)
      (List.mem_reverse.mp h)
  have hpos : ∃ e ∈ ((Core.constructGraph Core.branchTrace).run .init).2.skewEdges,
      0 < e.cost := by decide +kernel
  rw [hrun] at hpos
  obtain ⟨e, he, hcost⟩ := hpos
  obtain ⟨⟨k, hk⟩, -⟩ := Core.mem_skewEdges.mp he
  obtain ⟨path, _, s', -, -, hpath, hends, hsum, -⟩ := Core.longestPath_returns .choice
    (hs.modelled (fun _ => hlegal) hd) (hs.paced hd) hd rfl rfl hs.bottleneck_eq ⟨k, e, hk, hcost⟩
  have hkeys : s.bottleneck.keys = bottleneck := by
    rw [hs.bottleneck_eq]
    decide
  exact ⟨s, s', _, _, hrun, hkeys, hpath, hends.1, hends.2, hsum.symm,
    (report_roundTrip .choice s s' _ _ hkeys hpath hends.1 hends.2 hsum.symm).2⟩

end Python

end ArchExplorer.Explorer
