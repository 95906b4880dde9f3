import ArchExplorer.Deg.Induced

/-!
# Topological sort

On a graph that satisfies the invariant, `topologicalSort` is Kahn's algorithm: the table of
in-degrees counts the edges into a vertex because `pred` is the transpose of `graph`, and the
processed vertices are entered into `graph` while it runs, so that both assertions hold.
-/

namespace ArchExplorer.Deg

open ArchExplorer.Lib

variable {insts : List RiscvInstruction} {s s' : O3Graph} {u v : Vertex}

/-- The vertices of the graph: those with an entry in one of the two maps. -/
def O3Graph.verts (s : O3Graph) : Finset Vertex := s.graph.keys.toFinset ∪ s.pred.keys.toFinset

/-! ### Membership -/

/-- For a stage of the trace, having an entry and being a stored key are the same. -/
lemma Good.mem_keys (hn : Numbered insts) (hg : Good insts s) (hv : Owned insts v) :
    v ∈ s.graph.keys ↔ v ∈ s.graph := by
  constructor
  · exact Std.TreeMap.mem_of_mem_keys
  · intro h
    obtain ⟨w, hw, hcmp⟩ := OrdMap.exists_mem_keys h
    rwa [((hg.keys w hw).compare_eq_iff hn hv).mp hcmp] at hw

lemma Good.mem_predKeys (hn : Numbered insts) (hg : Good insts s) (hv : Owned insts v) :
    v ∈ s.pred.keys ↔ v ∈ s.pred := by
  constructor
  · exact Std.TreeMap.mem_of_mem_keys
  · intro h
    obtain ⟨w, hw, hcmp⟩ := OrdMap.exists_mem_keys h
    rwa [((hg.predKeys w hw).compare_eq_iff hn hv).mp hcmp] at hw

lemma Good.owned_of_verts (hg : Good insts s) (hv : v ∈ s.verts) : Owned insts v := by
  simp only [O3Graph.verts, Finset.mem_union, List.mem_toFinset] at hv
  exact hv.elim (hg.keys v) (hg.predKeys v)

lemma Good.mem_parents_iff (hg : Good insts s) (hu : Owned insts u) (hv : Owned insts v) :
    u ∈ s.parents v ↔ v ∈ s.children u := by
  rw [← List.count_pos_iff, ← List.count_pos_iff, hg.transpose u v hu hv]

lemma Good.owned_of_mem_children (hg : Good insts s) (hu : Owned insts u)
    (h : v ∈ s.children u) : Owned insts v ∧ u.rank < v.rank := by
  obtain ⟨e, he, rfl⟩ := List.mem_map.mp h
  exact hg.child u hu e he

lemma Good.owned_of_mem_parents (hg : Good insts s) (hv : Owned insts v)
    (h : u ∈ s.parents v) : Owned insts u := by
  obtain ⟨p, hp, rfl⟩ := List.mem_map.mp h
  exact hg.parent v hv p hp

lemma Good.mem_keys_of_mem_children (hn : Numbered insts) (hg : Good insts s)
    (hu : Owned insts u) (h : v ∈ s.children u) : u ∈ s.graph.keys := by
  obtain ⟨e, he, -⟩ := List.mem_map.mp h
  exact (hg.mem_keys hn hu).mpr (ListMap.mem_of_mem_entry he)

lemma Good.mem_predKeys_of_mem_children (hn : Numbered insts) (hg : Good insts s)
    (hu : Owned insts u) (h : v ∈ s.children u) : v ∈ s.pred.keys := by
  have hv := (hg.owned_of_mem_children hu h).1
  obtain ⟨p, hp, -⟩ := List.mem_map.mp ((hg.mem_parents_iff hu hv).mpr h)
  exact (hg.mem_predKeys hn hv).mpr (ListMap.mem_of_mem_entry hp)

/-- The vertices of the graph are the stored keys of `graph` and the children of edges. -/
lemma Good.mem_verts (hn : Numbered insts) (hg : Good insts s) (ht : Tight s) :
    v ∈ s.verts ↔ v ∈ s.graph.keys ∨ ∃ u ∈ s.graph.keys, v ∈ s.children u := by
  simp only [O3Graph.verts, Finset.mem_union, List.mem_toFinset]
  refine or_congr_right ⟨?_, ?_⟩
  · intro hv
    have hov := hg.predKeys v hv
    obtain ⟨p, hp⟩ := List.exists_mem_of_ne_nil _ (ht v hv)
    have hop := hg.parent v hov p hp
    have hmem := (hg.mem_parents_iff hop hov).mp (List.mem_map_of_mem hp)
    exact ⟨p.parent, hg.mem_keys_of_mem_children hn hop hmem, hmem⟩
  · rintro ⟨u, hu, hvu⟩
    exact hg.mem_predKeys_of_mem_children hn (hg.keys u hu) hvu

/-! ### The table of in-degrees -/

lemma lookup_foldl_insert_of_notMem {l : List (Vertex × List IngoingEdge)}
    (m : Kahn.Degrees Vertex) (h : v ∉ l.map Prod.fst) :
    (l.foldl (fun m entry => m.insert entry.1 (entry.2.length : ℤ)) m).lookup v = m.lookup v := by
  induction l generalizing m with
  | nil => rfl
  | cons entry l ih =>
    simp only [List.map_cons, List.mem_cons, not_or] at h
    rw [List.foldl_cons, ih _ h.2, AList.lookup_insert_ne h.1]

lemma lookup_foldl_insert_of_mem {l : List (Vertex × List IngoingEdge)} {es : List IngoingEdge}
    (m : Kahn.Degrees Vertex) (hnodup : (l.map Prod.fst).Nodup) (h : (v, es) ∈ l) :
    (l.foldl (fun m entry => m.insert entry.1 (entry.2.length : ℤ)) m).lookup v =
      some (es.length : ℤ) := by
  induction l generalizing m with
  | nil => simp at h
  | cons entry l ih =>
    rw [List.map_cons, List.nodup_cons] at hnodup
    rw [List.foldl_cons]
    rcases List.mem_cons.mp h with rfl | h
    · rw [lookup_foldl_insert_of_notMem _ hnodup.1, AList.lookup_insert]
    · exact ih _ hnodup.2 h

lemma lookup_indegreeMap (v : Vertex) :
    (indegreeMap s).lookup v =
      if v ∈ s.pred.keys then some ((s.ingoing v).length : ℤ) else none := by
  split_ifs with h
  · refine lookup_foldl_insert_of_mem _ ?_ (ListMap.mem_toList.mpr ⟨h, rfl⟩)
    rw [Std.TreeMap.map_fst_toList_eq_keys]
    exact OrdMap.nodup_keys
  · rw [← Std.TreeMap.map_fst_toList_eq_keys] at h
    exact lookup_foldl_insert_of_notMem ∅ h

lemma mem_indegreeMap : v ∈ indegreeMap s ↔ v ∈ s.pred.keys := by
  rw [← AList.lookup_isSome, lookup_indegreeMap]
  split_ifs with h <;> simp [h]

/-- The table starts with the number of edges into each vertex. -/
lemma Good.degree_indegreeMap (hn : Numbered insts) (hg : Good insts s) (v : Vertex) :
    Kahn.degree (indegreeMap s) v = Kahn.pending s.verts s.children [] v := by
  have hfilter : s.verts.filter (· ∉ ([] : List Vertex)) = s.verts := by simp
  rw [Kahn.degree, Kahn.pending, hfilter, lookup_indegreeMap]
  split_ifs with hv
  · have hov := hg.predKeys v hv
    have hcount : ∀ u ∈ s.verts, (s.children u).count v = (s.parents v).count u :=
      fun u hu => (hg.transpose u v (hg.owned_of_verts hu) hov).symm
    have hmem : ∀ u ∈ (s.parents v : Multiset Vertex), u ∈ s.verts := by
      intro u hu
      have hou := hg.owned_of_mem_parents hov hu
      have huv := (hg.mem_parents_iff hou hov).mp hu
      simp [O3Graph.verts, hg.mem_keys_of_mem_children hn hou huv]
    have hsum := Multiset.sum_count_eq_card hmem
    simp only [Multiset.coe_count, Multiset.coe_card] at hsum
    rw [Finset.sum_congr rfl hcount, hsum]
    simp [O3Graph.parents]
  · rw [Finset.sum_eq_zero]
    · rfl
    · intro u hu
      rw [List.count_eq_zero]
      exact fun h => hv (hg.mem_predKeys_of_mem_children hn (hg.owned_of_verts hu) h)

/-- The sort starts in a state of Kahn's algorithm. -/
lemma Good.kahn_start (hn : Numbered insts) (hg : Good insts s) (ht : Tight s) :
    Kahn.Inv s.verts s.children [] (s.graph.keys.filter fun v => v ∉ indegreeMap s)
      (indegreeMap s) := by
  refine .start (OrdMap.nodup_keys.filter _) (hg.degree_indegreeMap hn) ?_ ?_
  · intro v
    rw [mem_indegreeMap, Kahn.degree, lookup_indegreeMap]
    split_ifs with hv
    · simp [hv, List.length_pos_iff, ht v hv]
    · simp [hv]
  · intro v
    simp only [List.mem_filter, mem_indegreeMap, decide_eq_true_eq, O3Graph.verts,
      Finset.mem_union, List.mem_toFinset]
    tauto

/-! ### The loop -/

/-- Read the entries of a list of vertices. -/
def O3Graph.touchAll (s : O3Graph) (l : List Vertex) : O3Graph := l.foldl O3Graph.touchGraph s

lemma children_touchAll (s : O3Graph) (l : List Vertex) (v : Vertex) :
    (s.touchAll l).children v = s.children v := by
  induction l generalizing s with
  | nil => rfl
  | cons w l ih => exact (ih _).trans children_touchGraph

lemma touchAll_evolves {Q : Vertex → OutgoingEdge → Prop} {P : Prop} (s : O3Graph)
    {l : List Vertex} (hl : ∀ v ∈ l, Owned insts v) : Evolves insts Q P s (s.touchAll l) := by
  induction l generalizing s with
  | nil => exact .refl
  | cons w l ih =>
    exact (Evolves.step (.touchGraph (hl w List.mem_cons_self))).trans
      (ih _ fun v hv => hl v (List.mem_cons_of_mem _ hv))

lemma mem_touchAll (s : O3Graph) (l : List Vertex) (v : Vertex) :
    v ∈ (s.touchAll l).graph ↔ (∃ w ∈ l, vertexCompare w v = .eq) ∨ v ∈ s.graph := by
  induction l generalizing s with
  | nil => simp [O3Graph.touchAll]
  | cons w l ih =>
    have hw : v ∈ (s.touchGraph w).graph ↔ vertexCompare w v = .eq ∨ v ∈ s.graph :=
      ListMap.mem_touch
    have hfold : s.touchAll (w :: l) = (s.touchGraph w).touchAll l := rfl
    rw [hfold, ih, hw, List.exists_mem_cons_iff, or_left_comm, or_assoc]

section Loop

variable {succ : Vertex → List Vertex} {verts : Finset Vertex}
  (hsucc : ∀ u ∈ verts, ∀ c ∈ succ u, c ∈ verts)
include hsucc

/-- One generation processes its vertices in order. -/
lemma sortGeneration_run (gen : List Vertex) (s : O3Graph) (hs : ∀ v, s.children v = succ v)
    (m : Kahn.Degrees Vertex) (done next : List Vertex)
    (h : Kahn.Inv verts succ done (gen ++ next) m) :
    ∃ m' z, (sortGeneration gen m).run s = (.ok (m', z), s.touchAll gen) ∧
      Kahn.Inv verts succ (done ++ gen) (next ++ z) m' := by
  induction gen generalizing s m done next with
  | nil => exact ⟨m, [], rfl, by simpa using h⟩
  | cons v gen ih =>
    rw [List.cons_append] at h
    have hstep := h.step hsucc
    rw [List.append_assoc] at hstep
    obtain ⟨m', z, hrun, hinv⟩ := ih (s.touchGraph v)
      (fun w => by rw [children_touchGraph, hs w]) _ _ _ hstep
    refine ⟨m', (Kahn.relax m (succ v)).2 ++ z, ?_, by simpa using hinv⟩
    have hread : (readGraph v).run s = (.ok (s.outgoing v), s.touchGraph v) := rfl
    have hchildren : (s.outgoing v).map (·.child) = succ v := hs v
    rw [sortGeneration, Exec.run_bind_ok hread, hchildren, Exec.run_bind_ok hrun]
    rfl

/-- The loop processes every vertex, given one unit of fuel for each of them and one more. -/
lemma sortLoop_run (fuel : ℕ) (s : O3Graph) (hs : ∀ v, s.children v = succ v)
    (m : Kahn.Degrees Vertex) (done queue : List Vertex)
    (h : Kahn.Inv verts succ done queue m) (hfuel : verts.card < fuel + done.length) :
    ∃ m' ret l, (sortLoop fuel queue m done).run s = (.ok (m', ret), s.touchAll l) ∧
      ret = done ++ l ∧ Kahn.Inv verts succ ret [] m' := by
  induction fuel generalizing s m done queue with
  | zero =>
    -- without fuel more vertices would have been processed than there are
    have hnodup := (List.nodup_append.mp h.nodup).1
    have hsub : done.toFinset ⊆ verts := fun v hv =>
      ((h.ready v).mp (List.mem_append_left _ (List.mem_toFinset.mp hv))).1
    have hcard := Finset.card_le_card hsub
    rw [List.toFinset_card_of_nodup hnodup] at hcard
    omega
  | succ fuel ih =>
    rw [sortLoop]
    split_ifs with hq
    · subst hq
      exact ⟨m, done, [], rfl, by simp, h⟩
    · obtain ⟨m₁, z, hrun₁, hinv₁⟩ :=
        sortGeneration_run hsucc queue s hs m done [] (by simpa using h)
      have hlen : 0 < queue.length := List.length_pos_iff.mpr hq
      obtain ⟨m₂, ret, l, hrun₂, rfl, hinv₂⟩ := ih (s.touchAll queue)
        (fun v => by rw [children_touchAll, hs v]) m₁ (done ++ queue) z hinv₁
        (by rw [List.length_append]; omega)
      refine ⟨m₂, _, queue ++ l, ?_, List.append_assoc _ _ _, hinv₂⟩
      rw [Exec.run_bind_ok hrun₁, hrun₂, O3Graph.touchAll, O3Graph.touchAll, O3Graph.touchAll,
        List.foldl_append]

end Loop

/-- A topological order of the graph: every vertex once, and parents before their children. -/
structure TopologicalOrder (s : O3Graph) (topo : List Vertex) : Prop where
  nodup : topo.Nodup
  mem_iff : ∀ v, v ∈ topo ↔ v ∈ s.graph.keys ∨ ∃ u ∈ s.graph.keys, v ∈ s.children u
  idxOf_lt : ∀ u ∈ s.graph.keys, ∀ v ∈ s.children u, topo.idxOf u < topo.idxOf v

/-- The sort returns a topological order and only reads entries of the graph. -/
lemma topologicalSort_wp (hn : Numbered insts) (hg : Good insts s) (ht : Tight s) {fuel : ℕ}
    (hfuel : s.verts.card < fuel) {Q : Vertex → OutgoingEdge → Prop} :
    (topologicalSort fuel).wp
      (fun topo s' => TopologicalOrder s topo ∧ Evolves insts Q False s s')
      (fun _ _ => False) s := by
  have hsucc : ∀ u ∈ s.verts, ∀ c ∈ s.children u, c ∈ s.verts := by
    intro u hu c hc
    simp [O3Graph.verts, hg.mem_predKeys_of_mem_children hn (hg.owned_of_verts hu) hc]
  obtain ⟨m, l, l', hrun, hl, hinv⟩ := sortLoop_run hsucc fuel s (fun _ => rfl) _ [] _
    (hg.kahn_start hn ht) (by simpa using hfuel)
  obtain rfl : l = l' := by simpa using hl
  have hall : ∀ v ∈ s.verts, v ∈ l := hinv.mem_done Vertex.rank
    fun u hu c hc => (hg.owned_of_mem_children (hg.owned_of_verts hu) hc).2
  have hmem (v : Vertex) : v ∈ l ↔ v ∈ s.verts :=
    ⟨fun hv => ((hinv.ready v).mp (by simpa using hv)).1, hall v⟩
  have hnodup : l.Nodup := by simpa using hinv.nodup
  have hown : ∀ v ∈ l, Owned insts v := fun v hv => hg.owned_of_verts ((hmem v).mp hv)
  -- every processed vertex has become a key of the graph
  have hsize : l.length = (s.touchAll l).graph.size := by
    have hg' : Good insts (s.touchAll l) :=
      (touchAll_evolves (Q := fun _ _ => False) (P := False) s hown).good hn hg
    rw [← Std.TreeMap.length_keys]
    refine (List.perm_ext_iff_of_nodup hnodup OrdMap.nodup_keys).mpr (fun v => ?_) |>.length_eq
    constructor
    · intro hv
      rw [hg'.mem_keys hn (hown v hv), mem_touchAll]
      exact .inl ⟨v, hv, ((hown v hv).compare_eq_iff hn (hown v hv)).mpr rfl⟩
    · intro hv
      have hov := hg'.keys v hv
      rw [hg'.mem_keys hn hov, mem_touchAll] at hv
      rcases hv with ⟨w, hw, hcmp⟩ | hv
      · rwa [((hown w hw).compare_eq_iff hn hov).mp hcmp] at hw
      · exact hall v (by simp [O3Graph.verts, (hg.mem_keys hn hov).mpr hv])
  rw [topologicalSort, Exec.wp_bind, Exec.wp_get, Exec.wp_bind, Exec.wp_iff_of_run hrun]
  simp only [hinv.keys_eq_nil hall, List.length_nil, ne_eq, not_true_eq_false, if_false,
    Exec.wp_bind, Exec.wp_get, hsize, Exec.wp_pure]
  refine ⟨⟨hnodup, fun v => ?_, fun u hu v hv => ?_⟩, touchAll_evolves s hown⟩
  · rw [hmem, hg.mem_verts hn ht]
  · have huv : u ∈ s.verts := by simp [O3Graph.verts, hu]
    exact hinv.idxOf_lt huv (hall v (hsucc u huv v hv)) hv

/-- Before the first analysis, edges between instructions start and end before the commits. -/
lemma Built.endsIn {window : List RiscvInstruction} {rest : List TraceLine}
    (h : Built False insts window rest s) : AllEdges insts (EndsIn (·.type ≠ .c)) s := by
  intro u hu e he hne
  cases h.kinds u hu e he with
  | stage hv     => exact absurd (nextStage_instSeq hv) hne
  | cross hc     => exact hc.type_ne_c
  | virtual hV _ => exact hV.elim

/-- After any number of instructions of any trace, the induced graph can be sorted: with enough
fuel no assertion fails, and the result is a topological order of the graph. -/
theorem topologicalSort_modelSteps (trace : List TraceLine) (n : ℕ) :
    ∃ s₁ s₂, (modelSteps n).run (.init trace) = (.ok (), s₁) ∧
      constructInducedGraph.run s₁ = (.ok (), s₂) ∧
      ∀ fuel, s₂.verts.card < fuel →
        ∃ topo s₃, (topologicalSort fuel).run s₂ = (.ok topo, s₃) ∧ TopologicalOrder s₂ topo := by
  obtain ⟨s₁, hrun₁, h₁⟩ := (Built.init (V := False) trace).modelSteps n
  obtain ⟨_, s₂, hrun₂, h₂⟩ :=
    (constructInducedGraph_wp h₁.numbered h₁.good h₁.endsIn).returns
  refine ⟨s₁, s₂, hrun₁, hrun₂, fun fuel hfuel => ?_⟩
  have hg := h₂.good h₁.numbered h₁.good
  have ht := h₂.tight h₁.numbered h₁.good (h₁.fresh id).1
  obtain ⟨topo, s₃, hrun₃, h₃, -⟩ :=
    (topologicalSort_wp (Q := fun _ _ => False) h₁.numbered hg ht hfuel).returns
  exact ⟨topo, s₃, hrun₃, h₃⟩

end ArchExplorer.Deg
