import ArchExplorer.Lib.LongestPath
import ArchExplorer.Core.Induced

/-!
# Distances

The loop over a topological order fills the table of distances such that `Longest` holds at every
node. The path that is read off the table follows edges of the graph.
-/

namespace ArchExplorer.Core

open ArchExplorer.Lib

variable {insts : List RiscvInstruction} {s : Graph} {g : DiGraph String Node Edge} {dist : Dist}
  {u v : String} {l r : List String} {T : Prop}

/-- The cost of the edge between two nodes. -/
def edgeCost (g : DiGraph String Node Edge) (u v : String) : ℤ :=
  (g.edges.get? (u, v)).elim 0 Edge.cost

/-- The table as a function. -/
def Dist.table (dist : Dist) (v : String) : ℤ × Option String :=
  (dist.get? v).elim (0, none) fun d => (d.1, some d.2)

/-! ### Maxima -/

lemma foldl_max_spec {α : Type} {lt : α → α → Bool} (key : α → ℤ)
    (hlt : ∀ a b, lt a b = true → key a ≤ key b) (hge : ∀ a b, lt a b = false → key b ≤ key a)
    (a : α) (as : List α) :
    as.foldl (fun m b => if lt m b then b else m) a ∈ a :: as ∧
      ∀ b ∈ a :: as, key b ≤ key (as.foldl (fun m b => if lt m b then b else m) a) := by
  induction as generalizing a with
  | nil => simp
  | cons b as ih =>
    rw [List.foldl_cons]
    cases hab : lt a b with
    | true =>
      obtain ⟨hmem, hle⟩ := ih b
      have hhead := hle b List.mem_cons_self
      refine ⟨List.mem_cons_of_mem _ hmem, List.forall_mem_cons.mpr ⟨?_, hle⟩⟩
      exact (hlt a b hab).trans hhead
    | false =>
      obtain ⟨hmem, hle⟩ := ih a
      obtain ⟨hhead, htail⟩ := List.forall_mem_cons.mp hle
      refine ⟨?_, List.forall_mem_cons.mpr ⟨hhead, List.forall_mem_cons.mpr ⟨?_, htail⟩⟩⟩
      · rcases List.mem_cons.mp hmem with hm | hm
        · exact List.mem_cons.mpr (.inl hm)
        · exact List.mem_cons_of_mem _ (List.mem_cons_of_mem _ hm)
      · exact (hge a b hab).trans hhead

/-- The first of the largest elements is one of the elements, and its key is the largest one. -/
lemma maxFirst_spec {α : Type} {lt : α → α → Bool} (key : α → ℤ)
    (hlt : ∀ a b, lt a b = true → key a ≤ key b) (hge : ∀ a b, lt a b = false → key b ≤ key a)
    {as : List α} {m : α} (h : maxFirst lt as = some m) : m ∈ as ∧ ∀ b ∈ as, key b ≤ key m := by
  cases as with
  | nil => simp [maxFirst] at h
  | cons a as =>
    rw [maxFirst, Option.some.injEq] at h
    subst h
    exact foldl_max_spec key hlt hge a as

lemma exists_maxFirst {α : Type} (lt : α → α → Bool) {as : List α} (h : as ≠ []) :
    ∃ m, maxFirst lt as = some m := by
  obtain ⟨a, as, rfl⟩ := List.exists_cons_of_ne_nil h
  exact ⟨_, rfl⟩

lemma le_of_pairLt {p q : ℤ × String} (h : pairLt p q = true) : p.1 ≤ q.1 := by
  rcases of_decide_eq_true h with h | h
  · exact h.le
  · exact h.1.le

lemma le_of_not_pairLt {p q : ℤ × String} (h : pairLt p q = false) : q.1 ≤ p.1 :=
  not_lt.mp fun hlt => of_decide_eq_false h (.inl hlt)

/-! ### One node -/

/-- All predecessors of a node are in the table. -/
lemma distPairs_eq {vs : List String} (hvs : ∀ u ∈ vs, s.graph.Adj u v ∧ u ∈ dist.keys) :
    distPairs s dist v vs =
      .ok (vs.map fun u => ((Dist.table dist u).1 + edgeCost s.graph u v, u)) := by
  induction vs with
  | nil => rfl
  | cons u vs ih =>
    obtain ⟨⟨hadj, hmem⟩, hvs⟩ := List.forall_mem_cons.mp hvs
    obtain ⟨e, he⟩ := DiGraph.adj_iff.mp hadj
    obtain ⟨d, hd⟩ := Dict.mem_keys_iff.mp hmem
    have hedge : s.getEdge u v = .ok e := by rw [Graph.getEdge, he]
    have hhead : (Dist.table dist u).1 + edgeCost s.graph u v = d.1 + e.cost := by
      rw [Dist.table, hd, edgeCost, he]
      rfl
    simp only [distPairs, hedge, hd, ih hvs, List.map_cons, hhead]
    rfl

/-- What is entered for a node: the best of its predecessors, or distance zero. -/
structure BestOf (g : DiGraph String Node Edge) (dist : Dist) (v : String) (d : ℤ × String) :
    Prop where
  root : g.pred v = [] → d = (0, v)
  best : g.pred v ≠ [] →
    ∃ p ∈ g.pred v, d = ((Dist.table dist p).1 + edgeCost g p v, p)
  le : ∀ p ∈ g.pred v, (Dist.table dist p).1 + edgeCost g p v ≤ d.1

lemma updateDist_eq (h : ∀ u ∈ s.graph.pred v, u ∈ dist.keys) :
    ∃ d, updateDist s dist v = .ok (dist.set v d) ∧ BestOf s.graph dist v d := by
  have hpairs : distPairs s dist v (s.graph.pred v) = _ :=
    distPairs_eq fun u hu => ⟨DiGraph.mem_pred.mp hu, h u hu⟩
  rw [updateDist, hpairs]
  by_cases hp : s.graph.pred v = []
  · rw [hp]
    exact ⟨(0, v), rfl, fun _ => rfl, fun hne => absurd hp hne, by simp [hp]⟩
  · have hne : (s.graph.pred v).map
        (fun u => ((Dist.table dist u).1 + edgeCost s.graph u v, u)) ≠ [] := by simpa using hp
    obtain ⟨m, hm⟩ := exists_maxFirst pairLt hne
    obtain ⟨hmem, hle⟩ := maxFirst_spec Prod.fst (fun _ _ => le_of_pairLt)
      (fun _ _ => le_of_not_pairLt) hm
    refine ⟨m, ?_, fun hnil => absurd hnil hp, fun _ => ?_, fun q hq => ?_⟩
    · rw [ok_bind, hm]
      rfl
    · obtain ⟨q, hq, rfl⟩ := List.mem_map.mp hmem
      exact ⟨q, hq, rfl⟩
    · exact hle _ (List.mem_map.mpr ⟨q, hq, rfl⟩)

/-! ### The whole table -/

/-- No node is reached only by edges of negative cost. -/
def Steady (g : DiGraph String Node Edge) : Prop :=
  ∀ v, g.pred v ≠ [] → ∃ p ∈ g.pred v, 0 ≤ edgeCost g p v

/-- The table after the nodes `l` have been processed. -/
structure Filled (g : DiGraph String Node Edge) (l : List String) (dist : Dist) : Prop where
  keys : ∀ v, v ∈ dist.keys ↔ v ∈ l
  closed : ∀ v ∈ l, ∀ p ∈ g.pred v, p ∈ l
  longest : ∀ v ∈ l, Longest g.pred (edgeCost g) (Dist.table dist) v

lemma table_set (d : ℤ × String) (w : String) :
    Dist.table (dist.set v d) w = if w = v then (d.1, some d.2) else Dist.table dist w := by
  rw [Dist.table, Dict.get?_set]
  split_ifs <;> rfl

/-- Processing one more node. -/
lemma Filled.step (h : Filled s.graph l dist) (hsteady : Steady s.graph) (hv : v ∉ l)
    (hpred : ∀ p ∈ s.graph.pred v, p ∈ l) :
    ∃ dist', updateDist s dist v = .ok dist' ∧ Filled s.graph (l ++ [v]) dist' := by
  obtain ⟨d, hd, hbest⟩ := updateDist_eq fun u hu => (h.keys u).mpr (hpred u hu)
  refine ⟨dist.set v d, hd, ?_, ?_, ?_⟩
  · intro w
    rw [Dict.mem_keys_set, h.keys, List.mem_append, List.mem_singleton, or_comm]
  · intro w hw p hp
    rcases List.mem_append.mp hw with hw | hw
    · exact List.mem_append_left _ (h.closed w hw p hp)
    · obtain rfl := List.mem_singleton.mp hw
      exact List.mem_append_left _ (hpred p hp)
  · -- the entries of the processed nodes have not changed
    have hold : ∀ w ∈ l, Dist.table (dist.set v d) w = Dist.table dist w := by
      intro w hw
      rw [table_set, if_neg]
      rintro rfl
      exact hv hw
    have hnew : Dist.table (dist.set v d) v = (d.1, some d.2) := by rw [table_set, if_pos rfl]
    intro w hw
    rcases List.mem_append.mp hw with hw | hw
    · exact (h.longest w hw).congr (hold w hw) fun p hp => hold p (h.closed w hw p hp)
    · obtain rfl := List.mem_singleton.mp hw
      refine ⟨?_, fun hr => ?_, fun hne => ?_, fun p hp => ?_⟩
      · rw [hnew]
        by_cases hp : s.graph.pred w = []
        · rw [hbest.root hp]
        · obtain ⟨p, hp, hcost⟩ := hsteady w hp
          have hle := hbest.le p hp
          have hnn := (h.longest p (hpred p hp)).nonneg
          dsimp only
          omega
      · rw [hnew, hbest.root hr]
      · obtain ⟨p, hp, hdp⟩ := hbest.best hne
        exact ⟨p, hp, by rw [hnew, hold p (hpred p hp), hdp]⟩
      · rw [hnew, hold p (hpred p hp)]
        exact hbest.le p hp

/-- Processing all nodes in a topological order. -/
lemma Filled.foldlM (horder : s.graph.IsTopologicalOrder (l ++ r)) (hg : s.graph.Acyclic)
    (hsteady : Steady s.graph) (h : Filled s.graph l dist) :
    ∃ dist', r.foldlM (updateDist s) dist = .ok dist' ∧ Filled s.graph (l ++ r) dist' := by
  induction r generalizing l dist with
  | nil => exact ⟨dist, rfl, by rwa [List.append_nil]⟩
  | cons v r ih =>
    have hnodup : (l ++ v :: r).Nodup := horder.perm.nodup_iff.mpr s.graph.nodes.nodup_keys
    have hv : v ∉ l := fun hmem =>
      (List.nodup_append.mp hnodup).2.2 v hmem v List.mem_cons_self rfl
    obtain ⟨dist₁, hrun, h₁⟩ := h.step hsteady hv fun p hp =>
      horder.mem_left hg (DiGraph.mem_pred.mp hp)
    have happend : l ++ v :: r = (l ++ [v]) ++ r := by simp
    rw [happend] at horder ⊢
    obtain ⟨dist₂, hrest, h₂⟩ := ih horder h₁
    refine ⟨dist₂, ?_, h₂⟩
    rw [List.foldlM_cons, hrun]
    exact hrest

lemma Filled.empty : Filled g [] .empty := ⟨by simp, by simp, by simp⟩

/-! ### Properties of the analyzed graph -/

lemma Linked.exists_edge (h : Linked T insts g) (hadj : g.Adj u v) :
    ∃ e, g.edges.get? (u, v) = some e ∧ e.u.name = u ∧ e.v.name = v ∧ e.Owned insts ∧
      EdgeOk T e := by
  obtain ⟨e, he⟩ := DiGraph.adj_iff.mp hadj
  obtain ⟨hkey, howned, hok⟩ := h.edge he
  obtain ⟨hu, hv⟩ := Prod.mk.inj hkey
  exact ⟨e, he, hu.symm, hv.symm, howned, hok⟩

/-- The rank of the node with a name. -/
def rankOf (g : DiGraph String Node Edge) (name : String) : ℕ :=
  ((g.nodes.get? name).join).elim 0 Node.rank

lemma Located.rankOf_name (h : Located insts g) {n : Node} (hn : n.In insts) :
    rankOf g n.name = n.rank := by
  obtain ⟨i, hi, hmem⟩ := hn
  rw [rankOf, h.found i hi n hmem]
  rfl

lemma Modelled.rankOf_lt (h : Modelled T insts s) (hadj : s.graph.Adj u v) :
    rankOf s.graph u < rankOf s.graph v := by
  obtain ⟨e, -, rfl, rfl, ⟨hu, hv⟩, hok⟩ := h.linked.exists_edge hadj
  rw [h.located.rankOf_name hu, h.located.rankOf_name hv]
  exact hok.rank

lemma Modelled.acyclic (h : Modelled T insts s) : s.graph.Acyclic :=
  DiGraph.acyclic_of_rank (rankOf s.graph) fun _ _ => h.rankOf_lt

/-- A node of a chain other than its first one has a predecessor in it. -/
lemma exists_pred_of_isChain {α : Type} {R : α → α → Prop} {a x : α} {l : List α}
    (hl : (a :: l).IsChain R) (hx : x ∈ l) : ∃ y ∈ a :: l, R y x := by
  induction l generalizing a with
  | nil => simp at hx
  | cons b l ih =>
    rw [List.isChain_cons_cons] at hl
    rcases List.mem_cons.mp hx with rfl | hx
    · exact ⟨a, List.mem_cons_self, hl.1⟩
    · obtain ⟨y, hy, hyx⟩ := ih hl.2 hx
      exact ⟨y, List.mem_cons_of_mem _ hy, hyx⟩

/-- A fetch is only reached at a positive cost, any other node also from its own instruction. -/
lemma Modelled.steady (h : Modelled T insts s) (hp : Paced s.graph) : Steady s.graph := by
  intro v hne
  obtain ⟨p, hpv⟩ := List.exists_mem_of_ne_nil _ hne
  obtain ⟨e, he, -, rfl, ⟨-, i, hi, hv⟩, hok⟩ := h.linked.exists_edge (DiGraph.mem_pred.mp hpv)
  by_cases hf1 : e.v.stage = .f1
  · refine ⟨p, hpv, ?_⟩
    rw [edgeCost, he]
    exact (hp he hf1).le
  · have hcons : modelNodes i = nodeF1 i :: (modelNodes i).tail := rfl
    have hchain := h.linked.chained i hi
    rw [hcons] at hv hchain
    have htail : e.v ∈ (modelNodes i).tail := by
      rcases List.mem_cons.mp hv with hv | hv
      · exact absurd (congrArg Node.stage hv) hf1
      · exact hv
    obtain ⟨a, ha, hadj⟩ := exists_pred_of_isChain hchain htail
    refine ⟨a.name, DiGraph.mem_pred.mpr hadj, ?_⟩
    obtain ⟨e', he', hu', hv', -, hok'⟩ := h.linked.exists_edge hadj
    have hseq : e'.u.seq = e'.v.seq := by
      have hua := (uniqueName_inj hu').1
      have hvv := (uniqueName_inj hv').1
      rw [hua, hvv, seq_of_mem (hcons ▸ ha), seq_of_mem (hcons ▸ hv)]
    rw [edgeCost, he']
    exact (hok'.within hseq).ge

/-! ### The path of maximal cost -/

/-- Following the table from a node of positive distance. -/
lemma backWalk_follows (hl : Follows (Dist.table dist) l v) (hkeys : ∀ u ∈ l, u ∈ dist.keys)
    (hnn : ∀ u ∈ l, 0 ≤ (Dist.table dist u).1) {k : ℕ} (hk : l.length < k) {d : ℤ} (hd : 0 < d)
    (path : List String) : backWalk dist k d v path = .ok (l ++ path) := by
  induction hl generalizing k d path with
  | @start v hzero =>
    obtain ⟨k, rfl⟩ := Nat.exists_eq_add_of_lt hk
    obtain ⟨e, he⟩ := Dict.mem_keys_iff.mp (hkeys v (by simp))
    have he0 : e.1 = 0 := by simpa [Dist.table, he] using hzero
    rw [List.length_singleton, backWalk, if_pos hd, he]
    change backWalk dist (1 + k) e.1 e.2 (v :: path) = _
    rw [he0, Nat.add_comm, backWalk, if_neg (lt_irrefl 0)]
    rfl
  | @step l p v hl hpos hp ih =>
    rw [List.length_append, List.length_singleton] at hk
    obtain ⟨k, rfl⟩ : ∃ k', k = k' + 1 := ⟨k - 1, by omega⟩
    obtain ⟨e, he⟩ := Dict.mem_keys_iff.mp (hkeys v (by simp))
    have he1 : (Dist.table dist v).1 = e.1 := by simp [Dist.table, he]
    have hep : e.2 = p := by simpa [Dist.table, he] using hp
    have hepos : 0 < e.1 := by
      have := hnn v (by simp)
      omega
    rw [backWalk, if_pos hd, he]
    change backWalk dist k e.1 e.2 (v :: path) = _
    rw [hep, ih (fun u hu => hkeys u (List.mem_append_left _ hu))
      (fun u hu => hnn u (List.mem_append_left _ hu)) (by omega) hepos, List.append_assoc]
    rfl

/-- The core of the critical path: nodes that are connected one after the other. -/
structure CorePath (g : DiGraph String Node Edge) (path : List String) : Prop where
  ne_nil : path ≠ []
  chain : path.IsChain g.Adj
  nodes : ∀ n ∈ path, n ∈ g.nodes.keys

/-- A path along which a rank increases visits no node twice. -/
lemma nodup_of_isChain_lt {rank : String → ℕ} {path : List String}
    (h : path.IsChain fun a b => rank a < rank b) : path.Nodup := by
  have : IsTrans String fun a b => rank a < rank b := ⟨fun _ _ _ => lt_trans⟩
  refine (List.isChain_iff_pairwise.mp h).imp ?_
  rintro a b hab rfl
  exact hab.false

/-- What is read off the distances: nothing if no edge has a positive cost, and otherwise the core
of the critical path. -/
inductive Extracted (g : DiGraph String Node Edge) : List String → Prop
  | free (h : ∀ k e, g.edges.get? k = some e → e.cost ≤ 0) : Extracted g []
  | core {path : List String} (hpos : ∃ k e, g.edges.get? k = some e ∧ 0 < e.cost)
      (hcore : CorePath g path) : Extracted g path

/-- The distance grows along an edge by at least its cost. -/
lemma Filled.cost_le (h : Filled g l dist) (hb : v ∈ l) {e : Edge}
    (he : g.edges.get? (u, v) = some e) : e.cost ≤ (Dist.table dist v).1 := by
  have hu : u ∈ g.pred v := DiGraph.mem_pred.mpr (DiGraph.adj_iff.mpr ⟨e, he⟩)
  have hle := (h.longest v hb).le u hu
  have hnonneg := (h.longest u (h.closed v hb u hu)).nonneg
  rw [edgeCost, he, Option.elim_some] at hle
  omega

/-- The node that the search for the largest distance finds. -/
lemma Filled.exists_max (h : Filled g l dist) (hne : l ≠ []) :
    ∃ v d p, maxFirst (fun a b => pairLt a.2 b.2) dist.items = some (v, d, p) ∧ v ∈ l ∧
      (Dist.table dist v).1 = d ∧ ∀ w ∈ l, (Dist.table dist w).1 ≤ d := by
  obtain ⟨w₀, hw₀⟩ := List.exists_mem_of_ne_nil l hne
  obtain ⟨d₀, hd₀⟩ := Dict.mem_keys_iff.mp ((h.keys w₀).mpr hw₀)
  obtain ⟨⟨v, d, p⟩, hm⟩ := exists_maxFirst (fun x y : String × ℤ × String => pairLt x.2 y.2)
    (List.ne_nil_of_mem (Dict.mem_items_iff.mpr hd₀))
  obtain ⟨hmitem, hmax⟩ := maxFirst_spec (fun x : String × ℤ × String => x.2.1)
    (fun _ _ => le_of_pairLt) (fun _ _ => le_of_not_pairLt) hm
  have hv := Dict.mem_items_iff.mp hmitem
  refine ⟨v, d, p, hm, (h.keys v).mp (Dict.mem_keys_of_get? hv), by simp [Dist.table, hv], ?_⟩
  intro w hw
  obtain ⟨dw, hdw⟩ := Dict.mem_keys_iff.mp ((h.keys w).mpr hw)
  have hle := hmax (w, dw) (Dict.mem_items_iff.mpr hdw)
  rwa [show (Dist.table dist w).1 = dw.1 by simp [Dist.table, hdw]]

lemma dagLongestPath_returns (nx : Networkx) (h : Modelled T insts s) (hp : Paced s.graph)
    (hne : s.graph.nodes.keys ≠ []) :
    ∃ path, dagLongestPath nx s = .ok path ∧ Extracted s.graph path := by
  obtain ⟨order, hsort, horder⟩ := nx.topologicalSort_spec s.graph h.acyclic
  obtain ⟨dist, hdist, hfilled⟩ := Filled.foldlM (l := []) horder h.acyclic (h.steady hp) .empty
  rw [List.nil_append] at hfilled
  have hnodes : ∀ v, v ∈ order ↔ v ∈ s.graph.nodes.keys := fun v => horder.perm.mem_iff
  have hone : order ≠ [] := fun hnil => hne (List.eq_nil_iff_forall_not_mem.mpr fun v hv => by
    simpa [hnil] using (hnodes v).mpr hv)
  obtain ⟨v, d, p, hm, hvo, hd, hmax⟩ := hfilled.exists_max hone
  have hrun : dagLongestPath nx s = backWalk dist (dist.items.length + 1) d v [] := by
    rw [dagLongestPath, hsort]
    dsimp only
    rw [hdist, ok_bind, hm]
  rw [hrun]
  rcases (hd ▸ (hfilled.longest v hvo).nonneg).eq_or_lt with rfl | hdpos
  · refine ⟨[], rfl, .free fun k e he => ?_⟩
    have hb := (hnodes k.2).mpr (s.graph.closed k (Dict.mem_keys_of_get? he)).2
    exact (hfilled.cost_le hb he).trans (hmax _ hb)
  · have hclosed : ∀ w, w ∈ order → ∀ q ∈ s.graph.pred w, q ∈ order := hfilled.closed
    obtain ⟨l, hl, -⟩ := exists_follows hfilled.longest hclosed (rankOf s.graph)
      (fun w _ q hq => h.rankOf_lt (DiGraph.mem_pred.mp hq)) hvo
    have hchain : l.IsChain s.graph.Adj :=
      (hl.isChain hfilled.longest hclosed hvo).imp fun _ _ hab => DiGraph.mem_pred.mp hab.1
    have hlo : ∀ w ∈ l, w ∈ order := hl.forall_mem hfilled.longest hclosed hvo
    have hlen : l.length ≤ dist.items.length := by
      have hnodup : l.Nodup := nodup_of_isChain_lt (hchain.imp fun _ _ hab => h.rankOf_lt hab)
      have hsub : l ⊆ dist.keys := fun w hw => (hfilled.keys w).mpr (hlo w hw)
      simpa [Dict.keys] using (List.subperm_of_subset hnodup hsub).length_le
    refine ⟨l, ?_, .core ?_ ⟨?_, hchain, fun w hw => (hnodes w).mp (hlo w hw)⟩⟩
    · have hwalk := backWalk_follows hl (fun w hw => (hfilled.keys w).mpr (hlo w hw))
        (fun w hw => (hfilled.longest w (hlo w hw)).nonneg) (Nat.lt_succ_of_le hlen) hdpos []
      rwa [List.append_nil] at hwalk
    · -- the path leaves distance zero with an edge of positive cost
      obtain ⟨a, b, r, -, hab, hcost⟩ :=
        hl.first_step hfilled.longest hclosed hvo (hd ▸ hdpos.ne')
      obtain ⟨e, he⟩ := DiGraph.adj_iff.mp (DiGraph.mem_pred.mp hab)
      rw [edgeCost, he] at hcost
      exact ⟨_, e, he, hcost⟩
    · rintro rfl
      simpa using hl.getLast?

end ArchExplorer.Core
