import ArchExplorer.Deg.Edges
import ArchExplorer.Deg.Search
import ArchExplorer.Deg.Window

/-!
# The two searches for a path

The depth-first search finds a path between any two vertices of the induced graph that are
connected. The breadth-first search looks for a parent of the target among the vertices it meets
after the source, and gives up too early: it misses a path that is a single edge, and a path that is
only found after a vertex is met again or after a vertex of a later instruction.
-/

namespace ArchExplorer.Deg

open ArchExplorer.Lib Relation

variable {insts : List RiscvInstruction} {s : O3Graph} {source target : Vertex}

/-- The vertices are met generation by generation, each as often as there are ways to it. A parent
of `target` is met before any vertex is met twice and before any vertex of an instruction after that
of `target`. -/
def O3Graph.MeetsParent (s : O3Graph) (source target : Vertex) : Prop :=
  ∃ k l v r, Bfs.scan s.children k [source] = l ++ v :: r ∧ s.Joined v target ∧ l.Nodup ∧
    ∀ w ∈ l ++ [v], w.instSeq ≤ target.instSeq

lemma Good.found_iff (hg : Good insts s) (hsource : Owned insts source)
    (htarget : Owned insts target) : s.Found source target ↔ s.MeetsParent source target := by
  refine exists_congr fun k => Bfs.hit_iff.trans ?_
  refine exists_congr fun l => exists_congr fun v => exists_congr fun r => ?_
  refine and_congr_right fun hscan => and_congr_right fun _ => ?_
  have hseq : ∀ w ∈ l ++ [v], ¬target.inst.instSeq < w.inst.instSeq ↔
      w.instSeq ≤ target.instSeq := by
    intro w hw
    have hmem : w ∈ Bfs.scan s.children k [source] := by
      rw [hscan, List.append_cons]
      exact List.mem_append_left _ hw
    obtain ⟨u, hu, huw⟩ := Bfs.transGen_of_mem_scan hmem
    rw [List.mem_singleton.mp hu] at huw
    rw [not_lt, ← htarget.instSeq_eq, ← (hg.owned_of_transGen hsource huw).1.instSeq_eq]
  constructor
  · rintro ⟨hall, hnodup, -⟩
    exact ⟨hnodup, fun w hw => (hseq w hw).mp (hall w hw)⟩
  · rintro ⟨hnodup, hall⟩
    exact ⟨fun w hw => (hseq w hw).mpr (hall w hw), hnodup, by simp⟩

lemma PathTo.transGen {path : List Vertex} (h : PathTo s source target path) :
    TransGen s.Joined source target := by
  obtain ⟨hhead, hchain⟩ := h
  induction path generalizing source with
  | nil => cases hhead
  | cons x path ih =>
    obtain rfl : x = source := by simpa using hhead
    cases path with
    | nil => exact .single (List.isChain_pair.mp hchain)
    | cons y path =>
      rw [List.cons_append, List.cons_append, List.isChain_cons_cons] at hchain
      exact (ih rfl hchain.2).head hchain.1

lemma Finds.isSome_iff {r : Option (List Vertex)} (h : Finds s source target r) :
    r.isSome = true ↔ TransGen s.Joined source target := by
  cases r with
  | none      => exact ⟨nofun, fun hpath => absurd hpath (h.2 rfl)⟩
  | some path => exact ⟨fun _ => (h.1 path rfl).transGen, fun _ => rfl⟩

/-- In the induced graph of any number of instructions of any trace the two searches between two
vertices return. They agree with each other and with the existence of a path exactly where a path,
if there is one, is announced by a parent of the target that is met in time. -/
theorem ifExistPath_iff (trace : List TraceLine) (n : ℕ) :
    ∃ s₁ s, (modelSteps n).run (.init trace) = (.ok (), s₁) ∧
      constructInducedGraph.run s₁ = (.ok (), s) ∧
      ∀ source target, s.HasVertex source → s.HasVertex target → source ≠ target →
        ∀ fuel, 13 * (trace.length + 1) < fuel →
          ∃ found s₂ path s₃, (ifExistPath fuel source target).run s = (.ok found, s₂) ∧
            (findPath target fuel source).run s = (.ok path, s₃) ∧
            ((found = true ↔ TransGen s.Joined source target) ∧
                (found = true ↔ path.isSome = true) ↔
              (TransGen s.Joined source target → s.MeetsParent source target)) := by
  obtain ⟨s₁, hrun₁, h₁⟩ := (Built.init (V := False) trace).modelSteps n
  obtain ⟨_, s, hrun, hev⟩ := (constructInducedGraph_wp h₁.numbered h₁.good h₁.endsIn).returns
  refine ⟨s₁, s, hrun₁, hrun, fun source target hsource htarget _ fuel hfuel => ?_⟩
  have hn := h₁.numbered
  have hg := hev.good hn h₁.good
  have hown {v : Vertex} (hv : s.HasVertex v) : Owned _ v := hv.elim (hg.keys v) (hg.predKeys v)
  have hfuel' : 13 * ((readAll [] (trace.take n)).length + 1) < fuel := by
    have := List.length_take_le' n trace
    rw [length_readAll, List.length_nil]
    omega
  have hexist : (ifExistPath fuel source target).wp _ _ s :=
    ifExistPath_wp hn hg (hown hsource) hfuel' .refl
  have hfind : (findPath target fuel source).wp _ _ s :=
    findPath_wp hn hg fuel (hown hsource) (by omega) .refl
  obtain ⟨found, s₂, hrun₂, -, hfound⟩ := hexist.returns
  obtain ⟨path, s₃, hrun₃, -, hfinds⟩ := hfind.returns
  refine ⟨found, s₂, path, s₃, hrun₂, hrun₃, ?_⟩
  rw [hfinds.isSome_iff, and_self, ← hg.found_iff (hown hsource) (hown htarget), hfound]
  exact ⟨fun h => h.mpr, fun h => ⟨O3Graph.Found.transGen, h⟩⟩

/-- The fetch of a single addition and its next stage are joined by one edge, which the
breadth-first search does not report. -/
theorem ifExistPath_edge :
    ∃ s, s = (constructInducedGraph.run ((modelSteps 1).run (.init [addAt 1 [1] 5])).2).2 ∧
      ∃ source ∈ s.graph.keys, ∃ target ∈ s.children source, source ≠ target ∧
        ((ifExistPath 40 source target).run s).1 = .ok false ∧
        ((findPath target 40 source).run s).1 = .ok (some [source]) :=
  ⟨_, rfl, by decide +kernel⟩

end ArchExplorer.Deg
