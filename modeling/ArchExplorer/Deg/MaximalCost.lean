import ArchExplorer.Deg.CriticalPath
import ArchExplorer.Deg.Edges

/-!
# Distances are maximal costs

Only the first of several parallel edges is read when the table of distances is filled. Parallel
edges between instructions are the traces of several busy resources and take the same time, and a
virtual edge costs nothing, so that no choice among them costs more than the first one.
-/

namespace ArchExplorer.Deg

open ArchExplorer.Lib

variable {insts window : List RiscvInstruction} {s s' : O3Graph} {u v : Vertex}
  {e e' : OutgoingEdge} {es : List OutgoingEdge} {rest : List TraceLine} {dist : Dist}

/-! ### Parallel edges -/

/-- The cost of a dependence between two stages. -/
def dependenceCost (u v : Vertex) : Latency :=
  match v.type with
  | .f1 => delay u.inst.complete v.inst.fetchCacheLine
  | .r  => delay u.inst.rename v.inst.rename
  | _   => delay u.inst.issue v.inst.issue

lemma CrossEdge.cost_eq_dependenceCost (h : CrossEdge u e) :
    e.cost = dependenceCost u e.child := by
  cases h with
  | miss b hlt   => rw [dependenceCost, completeStage_inst]; rfl
  | rename b hlt => rfl
  | @issue i j b hlt =>
    rw [dependenceCost, issueStage_inst, issueStage_inst]
    unfold issueStage
    split_ifs <;> rfl

/-- Parallel edges have the same cost. -/
lemma EdgeKind.cost_eq (h : EdgeKind False u e) (h' : EdgeKind False u e')
    (hchild : e'.child = e.child) : e'.cost = e.cost := by
  cases h with
  | virtual hV _ => exact hV.elim
  | stage hv =>
    cases h' with
    | virtual hV _ => exact hV.elim
    | stage hv'    => rfl
    | cross hc     =>
      have hlt := hc.instSeq_lt
      rw [hchild, show (stageEdge _ _).child.instSeq = _ from nextStage_instSeq hv] at hlt
      exact absurd hlt (lt_irrefl _)
  | cross hc =>
    cases h' with
    | virtual hV _ => exact hV.elim
    | stage hv'    =>
      have hlt := hc.instSeq_lt
      rw [← hchild, show (stageEdge _ _).child.instSeq = _ from nextStage_instSeq hv'] at hlt
      exact absurd hlt (lt_irrefl _)
    | cross hc'    => rw [hc.cost_eq_dependenceCost, hc'.cost_eq_dependenceCost, hchild]

/-- The first of several parallel edges. -/
lemma exists_first (he : e ∈ s.outgoing u) :
    ∃ e' ∈ s.outgoing u, e'.child = e.child ∧ s.cost u e.child = e'.cost := by
  obtain ⟨e', _, -, hfind, -⟩ :=
    (getOutgoingEdge_wp (s := s) (u := u) (List.mem_map_of_mem he)).returns
  have hchild := List.find?_some hfind
  rw [decide_eq_true_eq] at hchild
  exact ⟨e', List.mem_of_find?_eq_some hfind, hchild, by rw [O3Graph.cost, hfind]; rfl⟩

/-- Before the analysis the first edge has the cost of all parallel ones. -/
lemma Built.cost_eq (h : Built False insts window rest s) (hu : Owned insts u)
    (he : e ∈ s.outgoing u) : s.cost u e.child = e.cost := by
  obtain ⟨e', he', hchild, hcost⟩ := exists_first he
  rw [hcost]
  exact (h.kinds u hu e he).cost_eq (h.kinds u hu e' he') hchild

/-- New edges do not hide the edges that were there. -/
lemma Evolves.cost_eq {Q : Vertex → OutgoingEdge → Prop} {P : Prop} (hn : Numbered insts)
    (hev : Evolves insts Q P s s') (hu : Owned insts u) (h : s.Joined u v) :
    s'.cost u v = s.cost u v := by
  obtain ⟨es, hes, -⟩ := hev.outgoing hn hu
  obtain ⟨e, _, -, hfind, -⟩ := (getOutgoingEdge_wp h).returns
  rw [O3Graph.cost, O3Graph.cost, hes, List.find?_append, hfind]
  rfl

/-- In the induced graph no parallel edge costs more than the first one. -/
lemma Built.le_cost (h : Built False insts window rest s)
    (hev : Evolves insts (InducedEdge insts (·.type ≠ .c)) False s s') (hready : Ready insts s')
    (hu : Owned insts u) (he : e ∈ s'.outgoing u) : e.cost ≤ s'.cost u e.child := by
  obtain ⟨es, hes, hnew⟩ := hev.outgoing h.numbered hu
  rw [hes] at he
  rcases List.mem_append.mp he with he | he
  · rw [hev.cost_eq h.numbered hu (List.mem_map_of_mem he), h.cost_eq hu he]
  · rw [(hnew e he).virtual.cost_eq]
    exact hready.cost_nonneg hu _

/-! ### Routes -/

/-- The edges lead from `u` to `v`. Where edges are parallel, any of them can be taken. -/
def O3Graph.Route (s : O3Graph) : Vertex → List OutgoingEdge → Vertex → Prop
  | u, [],      v => u = v
  | u, e :: es, v => s.HasEdge u e ∧ s.Route e.child es v

/-- The sum of the costs of the edges. -/
def routeCost (es : List OutgoingEdge) : Latency := (es.map (·.cost)).sum

/-- The costs of the routes that end in `v`. -/
def O3Graph.costsTo (s : O3Graph) (v : Vertex) : Set Latency :=
  {c | ∃ u es, s.Route u es v ∧ routeCost es = c}

/-- The costs of all routes. -/
def O3Graph.costs (s : O3Graph) : Set Latency := {c | ∃ v, s.HasVertex v ∧ c ∈ s.costsTo v}

section Table

variable {topo path : List Vertex} (hg : Good insts s) (htopo : TopologicalOrder s topo)
  (hle : ∀ u, Owned insts u → ∀ e ∈ s.outgoing u, e.cost ≤ s.cost u e.child)
  (hfilled : Filled insts s topo dist)
include hg htopo hfilled

include hle in
/-- A route adds at most the difference of the distances of its ends. -/
lemma Filled.add_routeCost_le (hr : s.Route u es v) (hu : u ∈ topo) :
    (dist.get u).1 + routeCost es ≤ (dist.get v).1 ∧ v ∈ topo := by
  induction es generalizing u with
  | nil =>
    obtain rfl : u = v := hr
    simpa [routeCost] using hu
  | cons e es ih =>
    obtain ⟨⟨hkey, he⟩, hr⟩ := hr
    have hown := hg.keys u hkey
    have hchild : e.child ∈ s.children u := List.mem_map_of_mem he
    have hmem : e.child ∈ topo := (htopo.mem_iff _).mpr (.inr ⟨u, hkey, hchild⟩)
    have hparent : u ∈ s.parents e.child :=
      (hg.mem_parents_iff hown (htopo.owned hg _ hmem)).mpr hchild
    have hstep : (dist.get u).1 + s.cost u e.child ≤ (dist.get e.child).1 :=
      (hfilled.longest _ hmem).le u hparent
    obtain ⟨hrest, hv⟩ := ih hr hmem
    refine ⟨?_, hv⟩
    calc (dist.get u).1 + routeCost (e :: es)
        = (dist.get u).1 + e.cost + routeCost es := by simp [routeCost, add_assoc]
      _ ≤ (dist.get u).1 + s.cost u e.child + routeCost es := by gcongr; exact hle u hown e he
      _ ≤ (dist.get e.child).1 + routeCost es := by gcongr
      _ ≤ (dist.get v).1 := hrest

/-- A path that follows the table is a route, whose cost is the distance of its end. -/
lemma Filled.exists_route (hn : Numbered insts) (hv : v ∈ topo) (hp : Follows dist.get path v) :
    ∃ u es, path = u :: es.map (·.child) ∧ s.Route u es v ∧ routeCost es = (dist.get v).1 := by
  obtain ⟨u, r, rfl, hzero, -⟩ := hp.exists_cons
  have hmem := hp.forall_mem hfilled.longest hfilled.closed hv
  have hchain := hp.isChain hfilled.longest hfilled.closed hv
  have hlast := hp.getLast?
  -- the steps from any vertex of the path on
  suffices h : ∃ es, r = es.map (·.child) ∧ s.Route u es v ∧
      (dist.get u).1 + routeCost es = (dist.get v).1 by
    obtain ⟨es, hr, hroute, hsum⟩ := h
    rw [hzero, zero_add] at hsum
    exact ⟨u, es, by rw [hr], hroute, hsum⟩
  clear hp hzero
  induction r generalizing u with
  | nil =>
    obtain rfl : u = v := by simpa using hlast
    exact ⟨[], rfl, rfl, by simp [routeCost]⟩
  | cons w r ih =>
    rw [List.isChain_cons_cons] at hchain
    rw [List.getLast?_cons_cons] at hlast
    obtain ⟨hu, hrest⟩ := List.forall_mem_cons.mp hmem
    have howned := htopo.owned hg
    have huw := (hg.mem_parents_iff (howned u hu) (howned w (hrest w (by simp)))).mp hchain.1.1
    obtain ⟨e, he, rfl⟩ := List.mem_map.mp huw
    obtain ⟨e', he', hchild, hcost⟩ := exists_first he
    obtain ⟨es, rfl, hroute, hsum⟩ := ih e.child hrest hchain.2 hlast
    refine ⟨e' :: es, by simp [hchild], ⟨⟨?_, he'⟩, hchild ▸ hroute⟩, ?_⟩
    · exact hg.mem_keys_of_mem_children hn (howned u hu) huw
    · rw [← hsum, hchain.1.2, hcost]
      simp [routeCost, add_assoc]

include hle in
/-- The distance of a vertex is the largest cost of a route that ends in it. -/
lemma Filled.isGreatest (hn : Numbered insts) (hv : v ∈ topo) :
    IsGreatest (s.costsTo v) (dist.get v).1 := by
  constructor
  · obtain ⟨path, hp, -⟩ := exists_follows hfilled.longest hfilled.closed Vertex.rank
      (fun w hw p hp => hfilled.rank_lt hg htopo hw hp) hv
    obtain ⟨u, es, -, hroute, hcost⟩ := hfilled.exists_route hg htopo hn hv hp
    exact ⟨u, es, hroute, hcost⟩
  · rintro _ ⟨u, es, hroute, rfl⟩
    have hu : u ∈ topo := by
      cases es with
      | nil       => exact (show u = v from hroute) ▸ hv
      | cons e es => exact (htopo.mem_iff u).mpr (.inl hroute.1.1)
    have hsum := (hfilled.add_routeCost_le hg htopo hle hroute hu).1
    have hnonneg := (hfilled.longest u hu).nonneg
    exact (le_add_of_nonneg_left hnonneg).trans hsum

end Table

/-- The induced graph of any number of instructions of any trace: with enough fuel, the update loop
gives every vertex the largest cost of a route that ends in it. If the largest cost of all routes is
positive, the core of the longest path is a route of this cost. -/
theorem longestPathCore_maximal (trace : List TraceLine) (n : ℕ) :
    ∃ s₁ s, (modelSteps n).run (.init trace) = (.ok (), s₁) ∧
      constructInducedGraph.run s₁ = (.ok (), s) ∧
      ∀ fuel, 13 * (trace.length + 1) < fuel →
        (∃ topo s₂ dist s₃, (topologicalSort fuel).run s = (.ok topo, s₂) ∧
          (topo.foldlM updateDist ∅).run s₂ = (.ok dist, s₃) ∧
          ∀ v, s.HasVertex v → IsGreatest (s.costsTo v) (dist.get v).1) ∧
        ∀ d, 0 < d → IsGreatest s.costs d →
          ∃ s₄ u es v, (longestPathCore fuel).run s = (.ok (u :: es.map (·.child)), s₄) ∧
            s.Route u es v ∧ routeCost es = d := by
  obtain ⟨s₁, hrun₁, h₁⟩ := (Built.init (V := False) trace).modelSteps n
  obtain ⟨_, s, hrun, hev⟩ := (constructInducedGraph_wp h₁.numbered h₁.good h₁.endsIn).returns
  refine ⟨s₁, s, hrun₁, hrun, fun fuel hfuel => ?_⟩
  have hn := h₁.numbered
  have hg := hev.good hn h₁.good
  have ht := hev.tight hn h₁.good (h₁.fresh id).1
  have hready {u : Vertex} (hu : Owned _ u) := h₁.ready (List.ne_nil_of_mem hu.1) hev
  have hcost : ∀ u, Owned _ u → ∀ v, 0 ≤ s.cost u v := fun u hu => (hready hu).cost_nonneg hu
  have hle : ∀ u, Owned _ u → ∀ e ∈ s.outgoing u, e.cost ≤ s.cost u e.child :=
    fun u hu e he => h₁.le_cost hev (hready hu) hu he
  have hfuel' : 13 * ((readAll [] (trace.take n)).length + 1) < fuel := by
    have := List.length_take_le' n trace
    rw [length_readAll, List.length_nil]
    omega
  have hcard := (hg.card_verts_le hn).trans_lt hfuel'
  have hverts {topo : List Vertex} (htopo : TopologicalOrder s topo) {v : Vertex} :
      s.HasVertex v ↔ v ∈ topo := by
    rw [htopo.mem_iff, ← hg.mem_verts hn ht]
    simp [O3Graph.HasVertex, O3Graph.verts]
  constructor
  · obtain ⟨topo, s₂, hsort, htopo, hev₂⟩ :=
      (topologicalSort_wp (Q := fun _ _ => False) hn hg ht hcard).returns
    obtain ⟨dist, s₃, hfill, -, hfilled⟩ :=
      (fill_wp hn hg htopo hcost (hev₂.mono (fun _ _ h => h) fun h => h.elim)).returns
    exact ⟨topo, s₂, dist, s₃, hsort, hfill, fun v hv =>
      hfilled.isGreatest hg htopo hle hn ((hverts htopo).mp hv)⟩
  · rintro d hpos ⟨⟨v, hv, hd⟩, hmax⟩
    obtain ⟨w, hw⟩ : ∃ w, w ∈ s.graph.keys := by
      have hmem : v ∈ s.verts := by simpa [O3Graph.HasVertex, O3Graph.verts] using hv
      rcases (hg.mem_verts hn ht).mp hmem with hkey | ⟨w, hw, -⟩
      · exact ⟨v, hkey⟩
      · exact ⟨w, hw⟩
    obtain ⟨path, s₄, hrun₄, -, topo, dist, htopo, hfilled, hpath⟩ :=
      (longestPathCore_extracted hn hg ht hcost hw hcard hfuel').returns
    have hkeys {w : Vertex} := hfilled.mem_keys (v := w) hn hg htopo
    have hvtopo := (hverts htopo).mp hv
    have hdv : d ≤ (dist.get v).1 := (hfilled.isGreatest hg htopo hle hn hvtopo).2 hd
    cases hpath with
    | free hzero =>
      rw [hzero v (hkeys.mpr hvtopo)] at hdv
      exact absurd hpos (not_lt.mpr hdv)
    | @path core back hkey _ hbest _ hcore =>
      have hback := hkeys.mp hkey
      obtain ⟨u, es, rfl, hroute, hsum⟩ := hfilled.exists_route hg htopo hn hback hcore
      refine ⟨s₄, u, es, back, hrun₄, hroute, le_antisymm ?_ ?_⟩
      · exact hmax ⟨back, (hverts htopo).mpr hback, u, es, hroute, rfl⟩
      · exact hsum ▸ hdv.trans (hbest v (hkeys.mpr hvtopo))

end ArchExplorer.Deg
