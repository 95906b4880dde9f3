import ArchExplorer.Lib.LongestPath
import ArchExplorer.Deg.TopologicalSort

/-!
# The core of the longest path

The table of distances is filled in the order of the topological sort, so that the entries of all
parents are there when a vertex is reached. The core of the longest path follows the table back
from the first vertex, in the order of the table, whose distance is largest.
-/

namespace ArchExplorer.Deg

open ArchExplorer.Lib

variable {insts : List RiscvInstruction} {s s' s₁ : O3Graph} {u v : Vertex} {e : OutgoingEdge}
  {dist dist' : Dist}

/-! ### Reading the graph -/

/-- Entries of the two maps are read and no edge is entered. -/
def Reads (insts : List RiscvInstruction) : O3Graph → O3Graph → Prop :=
  Evolves insts (fun _ _ => False) True

lemma Reads.touchGraph (hv : Owned insts v) : Reads insts s (s.touchGraph v) :=
  .step (.touchGraph hv)

lemma Reads.touchPred (hv : Owned insts v) : Reads insts s (s.touchPred v) :=
  .step (.touchPred hv trivial)

lemma Reads.outgoing (hn : Numbered insts) (h : Reads insts s s') (hv : Owned insts v) :
    s'.outgoing v = s.outgoing v := by
  obtain ⟨es, hes, hfalse⟩ := Evolves.outgoing hn h hv
  rw [hes, List.eq_nil_iff_forall_not_mem.mpr fun e he => hfalse e he, List.append_nil]

lemma Reads.ingoing (h : Reads insts s s') (v : Vertex) : s'.ingoing v = s.ingoing v := by
  refine Evolves.induct (R := fun t => t.ingoing v = s.ingoing v) h ?_ rfl
  rintro s₁ _ (hw | ⟨hw, -⟩ | ⟨_, _, _, hfalse⟩) h₁
  · exact h₁
  · rw [ingoing_touchPred, h₁]
  · exact hfalse.elim

lemma Reads.children (hn : Numbered insts) (h : Reads insts s s') (hv : Owned insts v) :
    s'.children v = s.children v := by
  rw [O3Graph.children, h.outgoing hn hv, O3Graph.children]

/-- The cost of the first edge from `u` to `v`. -/
def O3Graph.cost (s : O3Graph) (u v : Vertex) : Latency :=
  ((s.outgoing u).find? (·.child = v)).elim 0 (·.cost)

lemma Reads.cost (hn : Numbered insts) (h : Reads insts s s') (hu : Owned insts u) :
    s'.cost u v = s.cost u v := by
  rw [O3Graph.cost, h.outgoing hn hu, O3Graph.cost]

/-- Looking up an edge that is there. -/
lemma getOutgoingEdge_wp (h : v ∈ s.children u) :
    (getOutgoingEdge u v).wp
      (fun e s' => (s.outgoing u).find? (·.child = v) = some e ∧ s' = s.touchGraph u)
      (fun _ _ => False) s := by
  obtain ⟨e, he, rfl⟩ := List.mem_map.mp h
  have hsome : ((s.outgoing u).find? (·.child = e.child)).isSome := by
    rw [List.find?_isSome]
    exact ⟨e, he, by simp⟩
  obtain ⟨e', he'⟩ := Option.isSome_iff_exists.mp hsome
  rw [getOutgoingEdge, Exec.wp_bind, wp_readGraph, he']
  exact ⟨rfl, rfl⟩

/-! ### The table -/

/-- The table as a function. -/
def Dist.get (dist : Dist) (v : Vertex) : DistEntry := dist.getD v (0, none)

/-- The two tables hold the same entries. -/
structure SameEntries (dist dist' : Dist) : Prop where
  get_eq : ∀ v, dist'.get v = dist.get v
  mem_iff : ∀ v, v ∈ dist' ↔ v ∈ dist
  keys : ∀ v ∈ dist'.keys, v ∈ dist.keys

/-- Reading an entry that is there. -/
lemma SameEntries.touch (h : v ∈ dist) : SameEntries dist (dist.touch v (0, none)) where
  get_eq := fun w => OrdMap.getD_touch
  mem_iff := fun w => by
    rw [OrdMap.mem_touch, or_iff_right_of_imp]
    exact fun hvw => (Std.TreeMap.mem_congr hvw).mp h
  keys := fun w hw => by
    rw [OrdMap.mem_keys_iff] at hw ⊢
    rwa [OrdMap.touch_of_mem h] at hw

lemma SameEntries.trans {dist'' : Dist} (h : SameEntries dist dist')
    (h' : SameEntries dist' dist'') : SameEntries dist dist'' where
  get_eq := fun v => (h'.get_eq v).trans (h.get_eq v)
  mem_iff := fun v => (h'.mem_iff v).trans (h.mem_iff v)
  keys := fun v hv => h.keys v (h'.keys v hv)

/-- The distances at which a vertex is reached from its parents. -/
lemma distPairs_wp (hn : Numbered insts) (preds : List IngoingEdge) (s : O3Graph) (dist : Dist)
    (hpreds : ∀ i ∈ preds, Owned insts i.parent ∧ v ∈ s.children i.parent ∧ i.parent ∈ dist) :
    (distPairs v preds dist).wp
      (fun r s' => Reads insts s s' ∧ SameEntries dist r.1 ∧
        r.2 = preds.map fun i => ((dist.get i.parent).1 + s.cost i.parent v, some i.parent))
      (fun _ _ => False) s := by
  induction preds generalizing s dist with
  | nil => exact ⟨.refl, ⟨fun _ => rfl, fun _ => Iff.rfl, fun _ h => h⟩, rfl⟩
  | cons i preds ih =>
    obtain ⟨hown, hchild, hmem⟩ := hpreds i List.mem_cons_self
    have hsame : SameEntries dist (dist.touch i.parent (0, none)) := .touch hmem
    have hreads : Reads insts s (s.touchGraph i.parent) := .touchGraph hown
    rw [distPairs, Exec.wp_bind]
    refine (getOutgoingEdge_wp hchild).mono ?_ fun _ _ h => h
    rintro e _ ⟨he, rfl⟩
    rw [Exec.wp_bind]
    refine (ih (s.touchGraph i.parent) (dist.touch i.parent (0, none)) ?_).mono ?_ fun _ _ h => h
    · intro j hj
      obtain ⟨hown', hchild', hmem'⟩ := hpreds j (List.mem_cons_of_mem _ hj)
      exact ⟨hown', by rwa [children_touchGraph], (hsame.mem_iff _).mpr hmem'⟩
    · rintro r s' ⟨hreads', hsame', hpairs⟩
      refine ⟨hreads.trans hreads', hsame.trans hsame', ?_⟩
      have hcost : s.cost i.parent v = e.cost := by rw [O3Graph.cost, he]; rfl
      rw [List.map_cons, hcost, hpairs]
      refine congrArg _ (List.map_congr_left fun j hj => ?_)
      rw [hsame.get_eq, hreads.cost hn (hpreds j (List.mem_cons_of_mem _ hj)).1]

/-- The vertices of `done` have their final entries, and no other vertex has one. -/
structure Filled (insts : List RiscvInstruction) (s : O3Graph) (done : List Vertex) (dist : Dist) :
    Prop where
  keys : ∀ v ∈ dist.keys, Owned insts v
  owned : ∀ v ∈ done, Owned insts v
  mem_iff : ∀ v, Owned insts v → (v ∈ dist ↔ v ∈ done)
  closed : ∀ v ∈ done, ∀ p ∈ s.parents v, p ∈ done
  longest : ∀ v ∈ done, Longest s.parents s.cost dist.get v

lemma Filled.nil : Filled insts s [] ∅ :=
  ⟨by simp, by simp, by simp, by simp, by simp⟩

section Fill

variable {done : List Vertex} (hn : Numbered insts)
include hn

lemma get_update (hv : Owned insts v) {w : Vertex} (hw : Owned insts w) (d : DistEntry) :
    Dist.get (dist.update v (0, none) fun _ => d) w = Function.update dist.get v d w := by
  have hcmp := hv.compare_eq_iff hn hw
  unfold Dist.get
  rw [OrdMap.getD_update]
  by_cases hvw : v = w
  · subst hvw
    rw [if_pos (hcmp.mpr rfl), Function.update_self]
  · rw [if_neg (mt hcmp.mp hvw), Function.update_of_ne (Ne.symm hvw)]

/-- Entering a vertex whose parents are done. -/
lemma Filled.insert (h : Filled insts s done dist) (hsame : SameEntries dist dist')
    (hv : Owned insts v) (hnew : v ∉ done) (hparents : ∀ p ∈ s.parents v, p ∈ done)
    {d : DistEntry} (hd : Longest s.parents s.cost (Function.update dist.get v d) v) :
    Filled insts s (done ++ [v]) (dist'.update v (0, none) fun _ => d) := by
  have hget (w : Vertex) (hw : Owned insts w) :
      Dist.get (dist'.update v (0, none) fun _ => d) w = Function.update dist.get v d w := by
    rw [get_update hn hv hw, show dist'.get = dist.get from funext hsame.get_eq]
  have hold (w : Vertex) (hw : w ∈ done) :
      Dist.get (dist'.update v (0, none) fun _ => d) w = dist.get w := by
    rw [hget w (h.owned w hw), Function.update_of_ne]
    exact fun hwv => hnew (hwv ▸ hw)
  constructor
  · intro w hw
    rcases OrdMap.mem_keys_update hw with rfl | hw
    · exact hv
    · exact h.keys w (hsame.keys w hw)
  · intro w hw
    rcases List.mem_append.mp hw with hw | hw
    · exact h.owned w hw
    · rwa [List.mem_singleton.mp hw]
  · intro w hw
    rw [OrdMap.mem_update, hv.compare_eq_iff hn hw, hsame.mem_iff, h.mem_iff w hw,
      List.mem_append, List.mem_singleton, or_comm, eq_comm]
  · intro w hw p hp
    rcases List.mem_append.mp hw with hw | hw
    · exact List.mem_append_left _ (h.closed w hw p hp)
    · rw [List.mem_singleton.mp hw] at hp
      exact List.mem_append_left _ (hparents p hp)
  · intro w hw
    rcases List.mem_append.mp hw with hw | hw
    · exact (h.longest w hw).congr (hold w hw) fun p hp => hold p (h.closed w hw p hp)
    · rw [List.mem_singleton.mp hw]
      refine hd.congr (hget v hv) fun p hp => ?_
      exact hget p (h.owned p (hparents p hp))

end Fill

/-- The scan of the parents picks the entry of the vertex. -/
lemma longest_scanMax {table : Vertex → DistEntry} {preds : List IngoingEdge}
    (hpreds : s.ingoing v = preds) (hne : preds ≠ []) (hv : v ∉ s.parents v)
    (hnonneg : ∀ p ∈ s.parents v, 0 ≤ (table p).1 + s.cost p v) :
    Longest s.parents s.cost
      (Function.update table v
        (scanMax (preds.map fun i => ((table i.parent).1 + s.cost i.parent v, some i.parent))).2)
      v := by
  have hparents : s.parents v = preds.map (·.parent) := by rw [O3Graph.parents, hpreds]
  have htable (p : Vertex) (hp : p ∈ s.parents v) (d : DistEntry) :
      Function.update table v d p = table p := by
    apply Function.update_of_ne
    rintro rfl
    exact hv hp
  set pairs := preds.map fun i => ((table i.parent).1 + s.cost i.parent v, some i.parent)
    with hpairs
  have hmem (i : IngoingEdge) (hi : i ∈ preds) : i.parent ∈ s.parents v := by
    rw [hparents]
    exact List.mem_map_of_mem hi
  obtain ⟨hle, hfirst⟩ := scanMax_spec pairs
  obtain ⟨i₀, hi₀⟩ := List.exists_mem_of_ne_nil preds hne
  have hpos : 0 ≤ (scanMax pairs).1 :=
    (hnonneg i₀.parent (hmem i₀ hi₀)).trans (hle _ (List.mem_map_of_mem hi₀))
  -- the initial value of the scan is negative, so one of the entries was picked
  rcases hfirst with hnone | ⟨hbest, l, r, hsplit, -⟩
  · rw [hnone] at hpos
    exact absurd hpos (by decide)
  · have hpick : (scanMax pairs).2 ∈ pairs := by
      have : (scanMax pairs).2 ∈ l ++ (scanMax pairs).2 :: r := by simp
      rwa [← hsplit] at this
    obtain ⟨i, hi, hpick⟩ := List.mem_map.mp hpick
    constructor
    · rw [Function.update_self, ← hbest]
      exact hpos
    · intro hroot
      rw [hparents, List.map_eq_nil_iff] at hroot
      exact absurd hroot hne
    · intro _
      refine ⟨i.parent, hmem i hi, ?_⟩
      rw [Function.update_self, htable _ (hmem i hi), ← hpick]
    · intro p hp
      obtain ⟨j, hj, rfl⟩ := List.mem_map.mp (hparents ▸ hp)
      rw [Function.update_self, htable _ hp, ← hbest]
      exact hle _ (List.mem_map_of_mem hj)

section Run

variable {done : List Vertex} (hn : Numbered insts) (hg : Good insts s)
  (hcost : ∀ u, Owned insts u → ∀ v, 0 ≤ s.cost u v)
include hn hg hcost

lemma updateDist_wp (h : Filled insts s done dist) (hreads : Reads insts s s₁)
    (hv : Owned insts v) (hnew : v ∉ done) (hparents : ∀ p ∈ s.parents v, p ∈ done) :
    (updateDist dist v).wp
      (fun dist' s' => Reads insts s s' ∧ Filled insts s (done ++ [v]) dist')
      (fun _ _ => False) s₁ := by
  have hreads' : Reads insts s (s₁.touchPred v) := hreads.trans (Reads.touchPred hv)
  have hpreds : ∀ i ∈ s.ingoing v, Owned insts i.parent ∧
      v ∈ (s₁.touchPred v).children i.parent ∧ i.parent ∈ dist := by
    intro i hi
    have hp : i.parent ∈ s.parents v := List.mem_map_of_mem hi
    have hown := h.owned _ (hparents _ hp)
    refine ⟨hown, ?_, (h.mem_iff _ hown).mpr (hparents _ hp)⟩
    rw [hreads'.children hn hown]
    exact (hg.mem_parents_iff hown hv).mp hp
  rw [updateDist, Exec.wp_bind, wp_readPred, hreads.ingoing, Exec.wp_bind]
  refine (distPairs_wp hn (s.ingoing v) _ dist hpreds).mono ?_ fun _ _ h => h
  rintro ⟨dist', pairs⟩ s₂ ⟨hreads₂, hsame, hpairs⟩
  have hpairs' : pairs = (s.ingoing v).map fun i =>
      ((dist.get i.parent).1 + s.cost i.parent v, some i.parent) := by
    refine hpairs.trans (List.map_congr_left fun i hi => ?_)
    rw [hreads'.cost hn (hpreds i hi).1]
  have hread : Reads insts s s₂ := hreads'.trans hreads₂
  dsimp only
  split_ifs with hnil
  · -- a vertex without parents
    have hroot : s.parents v = [] := by
      rw [hpairs', List.map_eq_nil_iff] at hnil
      rw [O3Graph.parents, hnil, List.map_nil]
    refine ⟨hread, h.insert hn hsame hv hnew hparents ?_⟩
    constructor
    · rw [Function.update_self]
    · exact fun _ => Function.update_self _ _ _
    · exact fun hne => absurd hroot hne
    · simp [hroot]
  · refine ⟨hread, h.insert hn hsame hv hnew hparents ?_⟩
    rw [hpairs']
    apply longest_scanMax rfl
    · rintro hnil'
      rw [hpairs', hnil'] at hnil
      exact hnil rfl
    · exact fun hself => hnew (hparents v hself)
    · intro p hp
      have hown := h.owned p (hparents p hp)
      exact add_nonneg (h.longest p (hparents p hp)).nonneg (hcost p hown v)

/-- The table is filled in the order of a list in which parents come before their children. -/
lemma foldlM_updateDist_wp (topo : List Vertex) (htopo : ∀ v ∈ topo, Owned insts v)
    (hnodup : (done ++ topo).Nodup)
    (horder : ∀ l v r, topo = l ++ v :: r → ∀ p ∈ s.parents v, p ∈ done ++ l)
    (h : Filled insts s done dist) (hreads : Reads insts s s₁) :
    (topo.foldlM updateDist dist).wp
      (fun dist' s' => Reads insts s s' ∧ Filled insts s (done ++ topo) dist')
      (fun _ _ => False) s₁ := by
  induction topo generalizing done dist s₁ with
  | nil => exact ⟨hreads, by rwa [List.append_nil]⟩
  | cons v topo ih =>
    have hnew : v ∉ done := by
      intro hmem
      exact (List.nodup_append.mp hnodup).2.2 v hmem v List.mem_cons_self rfl
    have hparents : ∀ p ∈ s.parents v, p ∈ done := by
      simpa using horder [] v topo rfl
    rw [List.foldlM_cons, Exec.wp_bind]
    refine (updateDist_wp hn hg hcost h hreads (htopo v List.mem_cons_self) hnew
      hparents).mono ?_ fun _ _ h => h
    rintro dist' s₂ ⟨hreads₂, h₂⟩
    rw [List.append_cons] at hnodup ⊢
    refine ih (fun w hw => htopo w (List.mem_cons_of_mem _ hw)) hnodup ?_ h₂ hreads₂
    intro l w r hsplit p hp
    have := horder (v :: l) w r (by rw [hsplit, List.cons_append]) p hp
    rwa [List.append_cons] at this

end Run

lemma TopologicalOrder.parents_before (hn : Numbered insts) (hg : Good insts s)
    {topo l r : List Vertex} (h : TopologicalOrder s topo) (hv : Owned insts v)
    (hsplit : topo = l ++ v :: r) : ∀ p ∈ s.parents v, p ∈ l := by
  intro p hp
  have hown := hg.owned_of_mem_parents hv hp
  have hchild := (hg.mem_parents_iff hown hv).mp hp
  have hlt := h.idxOf_lt p (hg.mem_keys_of_mem_children hn hown hchild) v hchild
  have hnodup := h.nodup
  rw [hsplit, List.nodup_append] at hnodup
  have hvl : v ∉ l := fun hmem => hnodup.2.2 v hmem v List.mem_cons_self rfl
  rw [hsplit, List.idxOf_append_of_notMem hvl] at hlt
  by_contra hpl
  rw [List.idxOf_append_of_notMem hpl, List.idxOf_cons_self] at hlt
  omega

/-! ### The path -/

lemma Owned.rank_lt (hn : Numbered insts) (hv : Owned insts v) :
    v.rank < 13 * (insts.length + 1) := by
  have := hv.instSeq_mem hn
  have := v.type.num_lt
  unfold Vertex.rank
  omega

/-- There are no more vertices than ranks. -/
lemma Good.card_verts_le (hn : Numbered insts) (hg : Good insts s) :
    s.verts.card ≤ 13 * (insts.length + 1) := by
  have hmaps : ∀ v ∈ s.verts, v.rank ∈ Finset.range (13 * (insts.length + 1)) :=
    fun v hv => Finset.mem_range.mpr ((hg.owned_of_verts hv).rank_lt hn)
  have hinj : ∀ u ∈ s.verts, ∀ v ∈ s.verts, u.rank = v.rank → u = v :=
    fun u hu v hv h => (hg.owned_of_verts hu).eq_of_rank hn (hg.owned_of_verts hv) h
  have hcard := Finset.card_le_card_of_injOn Vertex.rank hmaps fun u hu v hv h => hinj u hu v hv h
  rwa [Finset.card_range] at hcard

/-- The loop reads off the path that follows the table. -/
lemma backWalk_follows {core : List Vertex} (h : Follows dist.get core v) {fuel : ℕ}
    (hfuel : core.length < fuel) {l : Latency} (hl : l ≠ 0) (path : List Vertex) :
    backWalk dist fuel l (some v) path = .ok (core ++ path) := by
  induction h generalizing fuel l path with
  | @start v h =>
    obtain ⟨k, rfl⟩ : ∃ k, fuel = k + 2 := ⟨fuel - 2, by simp at hfuel; omega⟩
    have hzero : (dist.getD v (0, none)).1 = 0 := h
    rw [backWalk_some _ _ hl, hzero, backWalk_zero]
    rfl
  | @step core p v h hv hp ih =>
    obtain ⟨k, rfl⟩ : ∃ k, fuel = k + 1 := ⟨fuel - 1, by simp at hfuel; omega⟩
    have hparent : (dist.getD v (0, none)).2 = some p := hp
    have hv' : (dist.getD v (0, none)).1 ≠ 0 := hv
    rw [List.length_append, List.length_singleton] at hfuel
    have hlen : core.length < k := by omega
    rw [backWalk_some _ _ hl, hparent, ih hlen hv', List.append_assoc]
    rfl

/-- The core of the longest path: a walk that starts with a step of positive cost and ends in a
vertex that was not reached at no cost from an earlier one. -/
structure Core (insts : List RiscvInstruction) (s : O3Graph) (path : List Vertex) : Prop where
  owned : ∀ v ∈ path, Owned insts v
  isChain : path.IsChain fun u v => v ∈ s.children u
  first : ∃ u w r, path = u :: w :: r ∧ w ∈ s.children u ∧ 0 < s.cost u w
  last : ∀ v, path.getLast? = some v →
    ∃ p ∈ s.parents v, s.cost p v ≠ 0 ∨ vertexCompare p v ≠ .lt

/-- The first entry of the table with the largest distance. -/
lemma scanMax_toList {v₀ : Vertex} (hv₀ : v₀ ∈ dist.keys) (hnonneg : 0 ≤ (dist.get v₀).1) :
    ∃ back ∈ dist.keys,
      scanMax (dist.toList.map fun entry => (entry.2.1, some entry.1)) =
        ((dist.get back).1, ((dist.get back).1, some back)) ∧
      (∀ p ∈ dist.keys, (dist.get p).1 ≤ (dist.get back).1) ∧
      ∀ p ∈ dist.keys, vertexCompare p back = .lt → (dist.get p).1 < (dist.get back).1 := by
  have hentry {w : Vertex} (hw : w ∈ dist.keys) : (w, dist.get w) ∈ dist.toList :=
    OrdMap.mem_toList_iff.mpr ⟨hw, rfl⟩
  obtain ⟨hle, hfirst⟩ :=
    scanMax_spec (dist.toList.map fun entry => (entry.2.1, some entry.1))
  have hbound {w : Vertex} (hw : w ∈ dist.keys) : (dist.get w).1 ≤ _ :=
    hle ((dist.get w).1, some w) (List.mem_map.mpr ⟨_, hentry hw, rfl⟩)
  set best := scanMax (dist.toList.map fun entry => (entry.2.1, some entry.1)) with hbest
  rcases hfirst with hnone | ⟨hval, l, r, hsplit, hlt⟩
  · have := hnonneg.trans (hbound hv₀)
    rw [hnone] at this
    exact absurd this (by decide)
  · obtain ⟨l', r', hl, hl', hr'⟩ := List.map_eq_append_iff.mp hsplit
    obtain ⟨⟨back, d⟩, r'', rfl, hd, -⟩ := List.map_eq_cons_iff.mp hr'
    have hback : (back, d) ∈ dist.toList := by rw [hl]; simp
    obtain ⟨hkey, rfl⟩ := (OrdMap.mem_toList_iff (a := (0, none))).mp hback
    have hone : best.1 = (dist.get back).1 := by rw [hval, ← hd]; rfl
    refine ⟨back, hkey, Prod.ext hone hd.symm, fun p hp => hone ▸ hbound hp, ?_⟩
    intro p hp hcmp
    -- an earlier key stands in the part of the list before the first maximum
    have hsorted := Std.TreeMap.ordered_keys_toList (t := dist)
    rw [hl, List.pairwise_append] at hsorted
    have hmem := hentry hp
    rw [hl] at hmem
    rcases List.mem_append.mp hmem with hmem | hmem
    · have hp' : ((dist.get p).1, some p) ∈ l := hl' ▸ List.mem_map.mpr ⟨_, hmem, rfl⟩
      exact hone ▸ hlt ((dist.get p).1, some p) hp'
    · exfalso
      rcases List.mem_cons.mp hmem with heq | hmem
      · obtain rfl : p = back := congrArg Prod.fst heq
        have hself : vertexCompare p p = .eq := Std.ReflCmp.compare_self
        rw [hself] at hcmp
        cases hcmp
      · have hgt := (List.pairwise_cons.mp hsorted.2.1).1 _ hmem
        rw [Std.OrientedCmp.gt_of_lt hcmp] at hgt
        cases hgt

/-- What is read off the table: nothing if all distances are zero, and the path back from the first
vertex with the largest distance otherwise. -/
inductive Extracted (dist : Dist) : List Vertex → Prop
  | free (h : ∀ v ∈ dist.keys, (dist.get v).1 = 0) : Extracted dist []
  | path {core : List Vertex} {back : Vertex} (hkey : back ∈ dist.keys)
      (hpos : 0 < (dist.get back).1) (hle : ∀ p ∈ dist.keys, (dist.get p).1 ≤ (dist.get back).1)
      (hfirst : ∀ p ∈ dist.keys, vertexCompare p back = .lt → (dist.get p).1 < (dist.get back).1)
      (hcore : Follows dist.get core back) : Extracted dist core

section Table

variable {topo : List Vertex} {fuel : ℕ} (hn : Numbered insts) (hg : Good insts s)
  (htopo : TopologicalOrder s topo)
include hg htopo

lemma TopologicalOrder.owned : ∀ v ∈ topo, Owned insts v := by
  intro w hw
  rcases (htopo.mem_iff w).mp hw with hw | ⟨x, hx, hxw⟩
  · exact hg.keys w hw
  · exact (hg.owned_of_mem_children (hg.keys x hx) hxw).1

include hn

/-- The whole table is filled. -/
lemma fill_wp (hcost : ∀ u, Owned insts u → ∀ v, 0 ≤ s.cost u v) (hreads : Reads insts s s₁) :
    (topo.foldlM updateDist ∅).wp
      (fun dist s' => Reads insts s s' ∧ Filled insts s topo dist) (fun _ _ => False) s₁ := by
  have howned := htopo.owned hg
  refine (foldlM_updateDist_wp hn hg hcost topo howned (by simpa using htopo.nodup) ?_ .nil
    hreads).mono ?_ fun _ _ h => h
  · intro l w r hsplit
    simpa using htopo.parents_before hn hg (howned w (hsplit ▸ by simp)) hsplit
  · rintro dist s₂ ⟨hreads₂, hfilled⟩
    exact ⟨hreads₂, by rwa [List.nil_append] at hfilled⟩

lemma Filled.mem_keys (hfilled : Filled insts s topo dist) : v ∈ dist.keys ↔ v ∈ topo := by
  constructor
  · intro hv
    exact (hfilled.mem_iff v (hfilled.keys v hv)).mp (Std.TreeMap.mem_of_mem_keys hv)
  · intro hv
    have hown := htopo.owned hg v hv
    obtain ⟨x, hx, hcmp⟩ := OrdMap.exists_mem_keys ((hfilled.mem_iff v hown).mpr hv)
    rwa [((hfilled.keys x hx).compare_eq_iff hn hown).mp hcmp] at hx

omit hn in
lemma Filled.rank_lt (hfilled : Filled insts s topo dist) {w p : Vertex} (hw : w ∈ topo)
    (hp : p ∈ s.parents w) : p.rank < w.rank := by
  have hop := hfilled.owned p (hfilled.closed w hw p hp)
  exact (hg.owned_of_mem_children hop
    ((hg.mem_parents_iff hop (htopo.owned hg w hw)).mp hp)).2

/-- With enough fuel the loop reads off the path. -/
lemma Filled.extracted (hfilled : Filled insts s topo dist) (hne : topo ≠ [])
    (hfuel : 13 * (insts.length + 1) < fuel) :
    ∃ path, Extracted dist path ∧
      (let r := scanMax (dist.toList.map fun entry => (entry.2.1, some entry.1))
       backWalk dist fuel r.1 r.2.2 []) = .ok path := by
  obtain ⟨v₀, hv₀⟩ := List.exists_mem_of_ne_nil topo hne
  obtain ⟨back, hback, hscan, hle, hfirst⟩ := scanMax_toList
    ((hfilled.mem_keys hn hg htopo).mpr hv₀) (hfilled.longest v₀ hv₀).nonneg
  have hbtopo := (hfilled.mem_keys hn hg htopo).mp hback
  rw [hscan]
  by_cases hzero : (dist.get back).1 = 0
  · refine ⟨[], .free fun v hv => le_antisymm (hzero ▸ hle v hv) ?_, ?_⟩
    · exact (hfilled.longest v ((hfilled.mem_keys hn hg htopo).mp hv)).nonneg
    · obtain ⟨k, rfl⟩ : ∃ k, fuel = k + 1 := ⟨fuel - 1, by omega⟩
      dsimp only
      rw [hzero, backWalk_zero]
  · obtain ⟨core, hcore, hlen⟩ := exists_follows hfilled.longest hfilled.closed Vertex.rank
      (fun w hw p hp => hfilled.rank_lt hg htopo hw hp) hbtopo
    have hnonneg := (hfilled.longest back hbtopo).nonneg
    have hpos : 0 < (dist.get back).1 := lt_of_le_of_ne hnonneg (Ne.symm hzero)
    refine ⟨core, .path hback hpos hle hfirst hcore, ?_⟩
    have hrank := (htopo.owned hg back hbtopo).rank_lt hn
    have hlen' : core.length < fuel := by omega
    have hwalk := backWalk_follows hcore hlen' hzero []
    rw [List.append_nil] at hwalk
    exact hwalk

end Table

/-- With enough fuel the table is filled and the core of the longest path is read off. -/
lemma longestPathCore_extracted (hn : Numbered insts) (hg : Good insts s) (ht : Tight s)
    (hcost : ∀ u, Owned insts u → ∀ v, 0 ≤ s.cost u v) (hu : u ∈ s.graph.keys) {fuel : ℕ}
    (hcard : s.verts.card < fuel) (hfuel : 13 * (insts.length + 1) < fuel) :
    (longestPathCore fuel).wp
      (fun path s' => Reads insts s s' ∧ ∃ topo dist, TopologicalOrder s topo ∧
        Filled insts s topo dist ∧ Extracted dist path)
      (fun _ _ => False) s := by
  rw [longestPathCore, Exec.wp_bind]
  refine (topologicalSort_wp (Q := fun _ _ => False) hn hg ht hcard).mono ?_ fun _ _ h => h
  rintro topo s₁ ⟨htopo, hev⟩
  rw [Exec.wp_bind]
  refine (fill_wp hn hg htopo hcost (hev.mono (fun _ _ h => h) fun h => h.elim)).mono ?_
    fun _ _ h => h
  rintro dist s₂ ⟨hreads, hfilled⟩
  have hne : topo ≠ [] := List.ne_nil_of_mem ((htopo.mem_iff u).mpr (.inl hu))
  obtain ⟨path, hpath, hwalk⟩ := hfilled.extracted hn hg htopo hne hfuel
  dsimp only at hwalk ⊢
  rw [hwalk, Exec.wp_ofExcept_ok]
  exact ⟨hreads, topo, dist, htopo, hfilled, hpath⟩

/-- A path that follows the table back from the first vertex with the largest distance. -/
lemma Filled.core (hn : Numbered insts) (hg : Good insts s) {topo core : List Vertex}
    {back : Vertex} (htopo : TopologicalOrder s topo) (hfilled : Filled insts s topo dist)
    (hback : back ∈ dist.keys) (hpos : 0 < (dist.get back).1)
    (hfirst : ∀ p ∈ dist.keys, vertexCompare p back = .lt → (dist.get p).1 < (dist.get back).1)
    (hcore : Follows dist.get core back) : Core insts s core := by
  have hkeys {w : Vertex} := hfilled.mem_keys (v := w) hn hg htopo
  have howned := htopo.owned hg
  have hbtopo := hkeys.mp hback
  have hmem := hcore.forall_mem hfilled.longest hfilled.closed hbtopo
  constructor
  · exact fun w hw => howned w (hmem w hw)
  · refine (hcore.isChain hfilled.longest hfilled.closed hbtopo).imp_of_mem_imp ?_
    intro x w hx hw hxw
    have hxo := howned x (hmem x hx)
    exact (hg.mem_parents_iff hxo (howned w (hmem w hw))).mp hxw.1
  · obtain ⟨x, w, r, rfl, hx, hxw⟩ :=
      hcore.first_step hfilled.longest hfilled.closed hbtopo (ne_of_gt hpos)
    have hwt := hmem w (by simp)
    have hxo := howned x (hmem x (by simp))
    exact ⟨x, w, r, rfl, (hg.mem_parents_iff hxo (howned w hwt)).mp hx, hxw⟩
  · intro w hw
    obtain rfl : back = w := by simpa [hcore.getLast?] using hw
    obtain ⟨p, hp, heq⟩ := (hfilled.longest back hbtopo).exists_parent (ne_of_gt hpos)
    refine ⟨p, hp, ?_⟩
    by_contra hno
    rw [not_or, not_not, not_not] at hno
    have hlt := hfirst p (hkeys.mpr (hfilled.closed back hbtopo p hp)) hno.2
    rw [heq, hno.1] at hlt
    simp at hlt

/-- The core of the longest path is found, unless all edges are free. -/
lemma longestPathCore_wp (hn : Numbered insts) (hg : Good insts s) (ht : Tight s)
    (hcost : ∀ u, Owned insts u → ∀ v, 0 ≤ s.cost u v) (hu : Owned insts u)
    (hchild : v ∈ s.children u) (hpos : 0 < s.cost u v) {fuel : ℕ} (hcard : s.verts.card < fuel)
    (hfuel : 13 * (insts.length + 1) < fuel) :
    (longestPathCore fuel).wp (fun path s' => Reads insts s s' ∧ Core insts s path)
      (fun _ _ => False) s := by
  have hkey := hg.mem_keys_of_mem_children hn hu hchild
  refine (longestPathCore_extracted hn hg ht hcost hkey hcard hfuel).mono ?_ fun _ _ h => h
  rintro path s' ⟨hreads, topo, dist, htopo, hfilled, hpath⟩
  refine ⟨hreads, ?_⟩
  cases hpath with
  | path hback hbpos _ hfirst hcore => exact hfilled.core hn hg htopo hback hbpos hfirst hcore
  | free hzero =>
    -- the end of the given edge has a positive distance
    exfalso
    have hov := (hg.owned_of_mem_children hu hchild).1
    have hvtopo : v ∈ topo := (htopo.mem_iff v).mpr (.inr ⟨u, hkey, hchild⟩)
    have hup : u ∈ s.parents v := (hg.mem_parents_iff hu hov).mpr hchild
    have hle := (hfilled.longest v hvtopo).le u hup
    have hnonneg := (hfilled.longest u (hfilled.closed v hvtopo u hup)).nonneg
    have hvzero := hzero v ((hfilled.mem_keys hn hg htopo).mpr hvtopo)
    exact absurd (add_pos_of_nonneg_of_pos hnonneg hpos) (not_lt.mpr (hvzero ▸ hle))

end ArchExplorer.Deg
