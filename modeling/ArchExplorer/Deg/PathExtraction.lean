import ArchExplorer.Lib.Acyclic
import ArchExplorer.Deg.PathSearch

/-!
# Extracting a path

`find_path` writes the path that it finds into a list it is given, vertex by vertex at the front and
only on the way back from a successful search. On any acyclic graph it terminates, since a step
reaches fewer vertices than there were before it; the graphs of all traces are acyclic.
-/

namespace ArchExplorer.Deg

open ArchExplorer.Lib Relation

variable {insts : List RiscvInstruction} {s s₁ : O3Graph} {u v source target : Vertex}

/-! ### The list that is passed by reference -/

/-- The loop over the edges: the first search that succeeds ends it. -/
def findPathThrough (search : Vertex → List Vertex → DegM (Bool × List Vertex)) :
    List OutgoingEdge → List Vertex → DegM (Bool × List Vertex)
  | [],           path => return (false, path)
  | edge :: rest, path => do
    let (found, path) ← search edge.child path
    if found then
      return (true, path)
    findPathThrough search rest path

/-- `find_path` with the list `path` that it changes: the answer and the list afterwards. -/
def findPathInto (target : Vertex) :
    ℕ → Vertex → List Vertex → DegM (Bool × List Vertex)
  | 0,        _,      _    => Exec.throw .outOfFuel
  | fuel + 1, source, path => do
    if ← ifExistEdge source target then
      return (true, source :: path)
    let (found, path) ← findPathThrough (findPathInto target fuel) (← readGraph source) path
    if found then
      return (true, source :: path)
    return (false, path)

/-- What a search leaves behind: the list it was given, after the path if there is one. -/
def leave (path : List Vertex) : Option (List Vertex) → Bool × List Vertex
  | some found => (true, found ++ path)
  | none       => (false, path)

lemma findPathThrough_eq {search : Vertex → List Vertex → DegM (Bool × List Vertex)}
    {f : Vertex → DegM (Option (List Vertex))}
    (h : ∀ v path, search v path = do return leave path (← f v)) (edges : List OutgoingEdge)
    (path : List Vertex) :
    findPathThrough search edges path =
      do return leave path (← findFirst (fun edge => f edge.child) edges) := by
  have := Exec.lawfulMonad (ε := DegError) (σ := O3Graph)
  induction edges with
  | nil => rfl
  | cons edge rest ih =>
    rw [findPathThrough, findFirst, h, bind_assoc, bind_assoc]
    refine bind_congr fun r => ?_
    cases r with
    | none       => simpa [leave] using ih
    | some found => simp [leave]

/-- The list is only changed by a search that succeeds, which puts the path in front of it. -/
lemma findPathInto_eq (target : Vertex) (fuel : ℕ) (source : Vertex) (path : List Vertex) :
    findPathInto target fuel source path =
      do return leave path (← findPath target fuel source) := by
  have := Exec.lawfulMonad (ε := DegError) (σ := O3Graph)
  induction fuel generalizing source path with
  | zero => rfl
  | succ fuel ih =>
    rw [findPathInto, findPath, bind_assoc]
    refine bind_congr fun found => ?_
    cases found with
    | true  => simp [leave]
    | false =>
      simp only [Bool.false_eq_true, if_false, bind_assoc]
      refine bind_congr fun edges => ?_
      rw [findPathThrough_eq ih, bind_assoc]
      refine bind_congr fun r => ?_
      cases r <;> simp [leave]

/-! ### Acyclic graphs -/

/-- The vertices at the ends of the edges. -/
def O3Graph.targets (s : O3Graph) : List Vertex := s.graph.keys.flatMap s.children

lemma O3Graph.Joined.mem_targets (h : s.Joined u v) : v ∈ s.targets := by
  obtain ⟨e, he, rfl⟩ := List.mem_map.mp h
  -- the entry is stored under a key that compares equal
  obtain ⟨k, hk, hcmp⟩ := OrdMap.exists_mem_keys (ListMap.mem_of_mem_entry he)
  refine List.mem_flatMap.mpr ⟨k, hk, List.mem_map_of_mem ?_⟩
  have hentry : s.outgoing k = s.outgoing u := Std.TreeMap.getD_congr hcmp
  rwa [hentry]

/-- Reading creates empty entries, which are no edges. -/
def SameEdges (s s' : O3Graph) : Prop := ∀ v, s'.outgoing v = s.outgoing v

lemma SameEdges.refl (s : O3Graph) : SameEdges s s := fun _ => rfl

lemma SameEdges.touchGraph (h : SameEdges s s₁) (u : Vertex) :
    SameEdges s (s₁.touchGraph u) := fun v => by rw [outgoing_touchGraph, h v]

/-- A step in an acyclic graph reaches fewer vertices than there were before it. -/
lemma searchable_of_acyclic (hs : Acyclic s.Joined) :
    Searchable s (SameEdges s) (fun _ => True) (reach s.Joined s.targets.toFinset) where
  outgoing _ v h _ := h v
  read _ v h _ := h.touchGraph v
  step _ _ _ h := ⟨trivial, hs.reach_lt (List.mem_toFinset.mpr h.mem_targets) h⟩

/-! ### Searches -/

/-- The graph of the stages of a trace is acyclic. -/
lemma Good.acyclic (hg : Good insts s) : Acyclic s.Joined := by
  -- the edges of a vertex are stored under a stage of the trace
  have hown {u v : Vertex} (h : s.Joined u v) : Owned insts v := by
    obtain ⟨k, hk, hv⟩ := List.mem_flatMap.mp h.mem_targets
    exact (hg.owned_of_mem_children (hg.keys k hk) hv).1
  intro v hv
  obtain ⟨u, -, huv⟩ := TransGen.tail'_iff.mp hv
  exact lt_irrefl _ (hg.owned_of_transGen (hown huv) hv).2

/-- On every acyclic graph the search for a path that is started with an empty list terminates, and
its depth is at most the number of edges. It returns true exactly if a path of at least one edge
leads from `source` to `target`; the list then is a path from `source` to a parent of `target`, and
otherwise it is still empty. -/
theorem findPathInto_extracts (s : O3Graph) (hs : Acyclic s.Joined) (source target : Vertex)
    (fuel : ℕ) (hfuel : s.targets.length < fuel) :
    ∃ found path s', (findPathInto target fuel source []).run s = (.ok (found, path), s') ∧
      (found = true ↔ TransGen s.Joined source target) ∧
      (found = true → PathTo s source target path) ∧
      (found = false → path = []) := by
  have hreach : reach s.Joined s.targets.toFinset source < fuel :=
    (reach_le.trans (List.toFinset_card_le _)).trans_lt hfuel
  have hwp : (findPath target fuel source).wp _ _ s :=
    (searchable_of_acyclic hs).findPath fuel trivial hreach (.refl s)
  obtain ⟨r, s', hrun, -, hfinds⟩ := hwp.returns
  refine ⟨(leave [] r).1, (leave [] r).2, s', ?_, ?_⟩
  · rw [findPathInto_eq, Exec.run_bind_ok hrun]
    rfl
  · have hiff := hfinds.isSome_iff
    cases r with
    | none =>
      refine ⟨by simpa [leave] using hiff, fun hfound => ?_, fun _ => rfl⟩
      cases hfound
    | some path =>
      refine ⟨by simpa [leave] using hiff, fun _ => ?_, fun hfound => ?_⟩
      · simpa [leave] using hfinds.1 path rfl
      · cases hfound

/-- The graph of a single addition is acyclic and has edges, and all its vertices can be
searched. -/
theorem findPathInto_extracts_add :
    ∃ s, (modelSteps 1).run (.init [addAt 1 [1] 5]) = (.ok (), s) ∧ Acyclic s.Joined ∧
      (∃ source target, s.Joined source target) ∧
      ∀ source target, ∃ found path s',
        (findPathInto target (s.targets.length + 1) source []).run s = (.ok (found, path), s') ∧
        (found = true ↔ TransGen s.Joined source target) ∧
        (found = true → PathTo s source target path) ∧
        (found = false → path = []) := by
  obtain ⟨s, hrun, hb⟩ := (Built.init (V := False) [addAt 1 [1] 5]).modelSteps 1
  have hacyclic := hb.good.acyclic
  refine ⟨s, hrun, hacyclic, ?_, fun source target => ?_⟩
  · have hown : Owned [⟨addAt 1 [1] 5, 1⟩] (firstStage ⟨addAt 1 [1] 5, 1⟩) :=
      .of_mem List.mem_cons_self firstStage_mem
    obtain ⟨v, -, hnext, -⟩ := exists_nextStage hown.2 (by simp [firstStage, single])
    exact ⟨_, v, List.mem_map_of_mem (hb.hasNext _ hown v hnext)⟩
  · exact findPathInto_extracts s hacyclic source target _ (Nat.lt_succ_self _)

end ArchExplorer.Deg
