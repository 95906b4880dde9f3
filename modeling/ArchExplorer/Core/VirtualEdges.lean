import ArchExplorer.Lib.Scan
import ArchExplorer.Core.Induced

/-!
# The virtual edges of the Python analysis

The workers of a pass connect the ends of the edges between instructions to the next tails of such
edges, if the edges are listed in the order of the instructions: each worker looks at the edges
behind its own one in a list that is sorted by one key, with ties in the order of the graph.
-/

namespace ArchExplorer.Core

open ArchExplorer.Lib

variable {edges l : List Edge} {v w : Node}

/-! ### What the workers are for -/

/-- `w` belongs to a later instruction than `v` and is not earlier in time. -/
def Later (v w : Node) : Prop := v.timestamp ≤ w.timestamp ∧ v.seq < w.seq

instance : Decidable (Later v w) := inferInstanceAs (Decidable (_ ∧ _))

/-- `w` is one of the nodes in `T` that are next to `v` in time. -/
def TimestampNext : (Node → Prop) → Node → Node → Prop :=
  Scan.Nearest Later fun w w' => w.timestamp ≤ w'.timestamp

/-- `w` is the node in `T` that is next to `v` in program order. -/
def SeqNext : (Node → Prop) → Node → Node → Prop :=
  Scan.Nearest Later fun w w' => w.seq < w'.seq ∨ w.seq = w'.seq ∧ w.timestamp ≤ w'.timestamp

/-- Of the nodes in `T`, `n` has the first stage of its instruction and its time. -/
def Leads : (Node → Prop) → Node → Prop :=
  Scan.First (fun m n => m.seq = n.seq ∧ m.timestamp = n.timestamp) fun m n => m.rank ≤ n.rank

/-- One of the edges starts at `n`. -/
def TailIn (edges : List Edge) (n : Node) : Prop := ∃ e ∈ edges, e.u = n

/-- One of the edges starts or ends at `n`. -/
def EndpointIn (edges : List Edge) (n : Node) : Prop := ∃ e ∈ edges, n = e.u ∨ n = e.v

/-- `n` stands behind `m` in the list of the nodes, or it is the same node. -/
def Behind (m n : Node) : Prop :=
  m.seq < n.seq ∨ m.seq = n.seq ∧ m.timestamp ≤ n.timestamp ∧ m.rank ≤ n.rank

/-- The edges between instructions, listed in the order of the instructions and of their stages.
They lead to later instructions and not backwards in time. -/
structure InOrder (edges : List Edge) : Prop where
  nodup : edges.Nodup
  sorted : edges.Pairwise fun a b => Behind a.u b.u
  forward : ∀ e ∈ edges, e.u.seq < e.v.seq ∧ e.u.timestamp ≤ e.v.timestamp
  rank_inj : ∀ a ∈ edges, ∀ b ∈ edges, a.u.rank = b.u.rank → a.u = b.u

lemma InOrder.le (h : InOrder edges) {e : Edge} (he : e ∈ edges) (hv : v = e.u ∨ v = e.v) :
    e.u.seq ≤ v.seq ∧ e.u.timestamp ≤ v.timestamp := by
  rcases hv with rfl | rfl
  · exact ⟨le_rfl, le_rfl⟩
  · exact ⟨(h.forward e he).1.le, (h.forward e he).2⟩

/-- Among the nodes of an instruction and a time there is a first one. -/
lemma exists_leads {T : Node → Prop} (h : T v) :
    ∃ n, Leads T n ∧ n.seq = v.seq ∧ n.timestamp = v.timestamp := by
  obtain ⟨n, ⟨hn, hsame⟩, hmin⟩ := (measure Node.rank).wf.has_min
    {n | T n ∧ n.seq = v.seq ∧ n.timestamp = v.timestamp} ⟨v, h, rfl, rfl⟩
  refine ⟨n, ⟨hn, fun x hx hxn => not_lt.mp (hmin x ⟨hx, ?_⟩)⟩, hsame⟩
  exact ⟨hxn.1.trans hsame.1, hxn.2.trans hsame.2⟩

/-! ### The calls of the workers -/

/-- A call is made for an end of an edge and the edges behind it. -/
lemma mem_workers {next : List Edge → Node → List Call} {c : Call} :
    c ∈ (workers (fun idx edge es => next (es.drop (idx + 1)) edge.u ++
      next (es.drop (idx + 1)) edge.v) l).flatten ↔
      ∃ before e rest, l = before ++ e :: rest ∧ (c ∈ next rest e.u ∨ c ∈ next rest e.v) := by
  simp only [workers, List.mem_flatten, List.mem_map, Prod.exists, List.mk_mem_zipIdx_iff_getElem?]
  constructor
  · rintro ⟨_, ⟨e, idx, he, rfl⟩, hc⟩
    obtain ⟨hidx, rfl⟩ := List.getElem?_eq_some_iff.mp he
    refine ⟨l.take idx, l[idx], l.drop (idx + 1), ?_, List.mem_append.mp hc⟩
    rw [List.getElem_cons_drop, List.take_append_drop]
  · rintro ⟨before, e, rest, rfl, hc⟩
    refine ⟨_, ⟨e, before.length, by simp, rfl⟩, ?_⟩
    have hdrop : (before ++ e :: rest).drop (before.length + 1) = rest := by
      rw [List.drop_append, List.drop_eq_nil_of_le (Nat.le_succ _)]
      simp
    rwa [hdrop, List.mem_append]

/-- The nearest tail in program order. -/
lemma mem_viaSeqFrom {c : Call} (hl : l.Pairwise fun a b => Behind a.u b.u)
    (hinj : ∀ a ∈ l, ∀ b ∈ l, a.u.rank = b.u.rank → a.u = b.u) :
    c ∈ viaSeqFrom l v ↔ c.1 = v ∧ SeqNext (Leads (TailIn l)) v c.2 := by
  have hq : (fun edge : Edge => decide (v.seq < edge.u.seq ∧ v.timestamp ≤ edge.u.timestamp)) =
      fun edge => decide (Later v edge.u) := by
    funext edge
    simp only [Later, and_comm]
  rw [viaSeqFrom, hq]
  cases hfind : l.find? fun edge => decide (Later v edge.u) with
  | none =>
    simp only [List.not_mem_nil, false_iff]
    rintro ⟨-, ⟨⟨e, he, heq⟩, -⟩, hlater, -⟩
    rw [← heq] at hlater
    simpa [hlater] using List.find?_eq_none.mp hfind e he
  | some a =>
    obtain ⟨hmem, hlater, hleast⟩ := Scan.least_of_find? hl hfind
    have hfirst : ∀ b ∈ l, Later v b.u → Behind a.u b.u := by
      intro b hb hb'
      rcases hleast b hb (decide_eq_true hb') with rfl | h
      exacts [.inr ⟨rfl, le_rfl, le_rfl⟩, h]
    rw [List.mem_singleton]
    constructor
    · rintro rfl
      refine ⟨rfl, ⟨⟨a, hmem, rfl⟩, ?_⟩, of_decide_eq_true hlater, ?_⟩
      · rintro _ ⟨b, hb, rfl⟩ ⟨hseq, htime⟩
        have hb' : Later v b.u := by
          rw [Later, hseq, htime]
          exact of_decide_eq_true hlater
        exact ((hfirst b hb hb').resolve_left hseq.symm.not_lt).2.2
      · rintro _ ⟨⟨b, hb, rfl⟩, -⟩ hb'
        exact (hfirst b hb hb').imp_right fun h => ⟨h.1, h.2.1⟩
    · rintro ⟨h₁, ⟨⟨b, hb, h₂⟩, hlead⟩, hb', hleast'⟩
      refine Prod.ext h₁ (h₂ ▸ ?_)
      -- both come first, so that they have the same place
      obtain ⟨x, ⟨hx, hxlead⟩, hseq, htime⟩ := exists_leads (T := TailIn l) ⟨a, hmem, rfl⟩
      have hx' : Later v x := by
        rw [Later, hseq, htime]
        exact of_decide_eq_true hlater
      have hxb : c.2.seq < x.seq ∨ c.2.seq = x.seq ∧ c.2.timestamp ≤ x.timestamp :=
        hleast' x ⟨hx, hxlead⟩ hx'
      rw [hseq, htime, ← h₂] at hxb
      rw [← h₂] at hb' hlead
      have hab := hfirst b hb hb'
      rw [Behind] at hab
      have hba : b.u.rank ≤ a.u.rank := hlead a.u ⟨a, hmem, rfl⟩ ⟨by omega, by omega⟩
      exact hinj b hb a hmem (by omega)

lemma viaTimestampFrom_eq (l : List Edge) (v : Node) :
    viaTimestampFrom l v = (Scan.nextInTime (fun edge => edge.u.timestamp)
      (fun edge => v.seq < edge.u.seq) v.timestamp l).map fun edge => (v, edge.u) := by
  rw [viaTimestampFrom, Scan.nextInTime_eq]
  simp only [decide_eq_true_eq]
  split
  next e rest heq =>
    rw [heq]
    rfl
  next heq =>
    rw [heq, List.map_nil, viaSameTimestamp, List.map_eq_nil_iff]
    -- no edge qualifies, so that the second loop stops at its first edge
    cases hdrop : l.drop 1 with
    | nil      => rfl
    | cons e r =>
      have he := List.dropWhile_eq_nil_iff.mp heq e ((List.drop_subset 1 l) (by simp [hdrop]))
      refine List.takeWhile_cons_of_neg ?_
      simp only [decide_eq_true_eq] at he ⊢
      omega

/-- The nearest tails in time. -/
lemma mem_viaTimestampFrom {c : Call}
    (hl : l.Pairwise fun a b => a.u.timestamp < b.u.timestamp ∨
      a.u.timestamp = b.u.timestamp ∧ a.u.seq ≤ b.u.seq) :
    c ∈ viaTimestampFrom l v ↔ c.1 = v ∧ TimestampNext (TailIn l) v c.2 := by
  have hsorted : Scan.SortedBy (fun edge : Edge => edge.u.timestamp)
      (fun edge => v.seq < edge.u.seq) l := by
    refine hl.imp fun {a b} hab => ?_
    simp only [decide_eq_true_eq]
    omega
  simp only [viaTimestampFrom_eq, List.mem_map, Scan.mem_nextInTime_iff hsorted,
    decide_eq_true_eq]
  constructor
  · rintro ⟨e, ⟨hmem, htime, hseq, hleast⟩, rfl⟩
    refine ⟨rfl, ⟨e, hmem, rfl⟩, ⟨htime, hseq⟩, ?_⟩
    rintro _ ⟨b, hb, rfl⟩ hlater
    exact hleast b hb hlater.1 hlater.2
  · rintro ⟨h₁, ⟨e, hmem, h₂⟩, ⟨htime, hseq⟩, hleast⟩
    rw [← h₂] at htime hseq hleast
    refine ⟨e, ⟨hmem, htime, hseq, fun b hb hb₁ hb₂ => ?_⟩, Prod.ext h₁.symm h₂⟩
    exact hleast b.u ⟨b, hb, rfl⟩ ⟨hb₁, hb₂⟩

/-- The workers of a pass over a sorted list, whose edges up to the current one do not start later
than its ends. They look for the nearest tails that pass the filter `F`. -/
lemma mem_workers_iff {next : List Edge → Node → List Call} {le : Node → Node → Prop}
    {F : (Node → Prop) → Node → Prop} {R : Edge → Edge → Prop} (hl : l.Pairwise R)
    (hF : ∀ {T T' : Node → Prop} {v : Node}, (∀ x, Later v x → (T x ↔ T' x)) →
      ∀ x, Later v x → (F T x ↔ F T' x))
    (hnext : ∀ {rest : List Edge} {v : Node} {c : Call}, rest ⊆ l → rest.Pairwise R →
      (c ∈ next rest v ↔ c.1 = v ∧ Scan.Nearest Later le (F (TailIn rest)) v c.2))
    (hbefore : ∀ b ∈ l, ∀ e ∈ l, b = e ∨ R b e → ∀ v, v = e.u ∨ v = e.v → ¬Later v b.u) :
    (v, w) ∈ (workers (fun idx edge es => next (es.drop (idx + 1)) edge.u ++
      next (es.drop (idx + 1)) edge.v) l).flatten ↔
      EndpointIn l v ∧ Scan.Nearest Later le (F (TailIn l)) v w := by
  have hsuffix {before : List Edge} {e : Edge} {rest : List Edge} (heq : l = before ++ e :: rest)
      (v' : Node) (hv : v' = e.u ∨ v' = e.v) :
      (v, w) ∈ next rest v' ↔ v = v' ∧ Scan.Nearest Later le (F (TailIn l)) v' w := by
    have hsub : rest ⊆ l := fun x hx => by simp [heq, hx]
    have hsorted := List.pairwise_append.mp (heq ▸ hl)
    rw [hnext hsub (List.pairwise_cons.mp hsorted.2.1).2]
    refine and_congr_right fun _ => Scan.nearest_congr (hF fun x hx => ?_)
    constructor
    · rintro ⟨b, hb, rfl⟩
      exact ⟨b, hsub hb, rfl⟩
    · rintro ⟨b, hb, rfl⟩
      have he : e ∈ l := by simp [heq]
      rcases List.mem_append.mp (heq ▸ hb) with hb' | hb'
      · exact absurd hx (hbefore b hb e he (.inr (hsorted.2.2 b hb' e List.mem_cons_self)) v' hv)
      · rcases List.mem_cons.mp hb' with rfl | hb'
        · exact absurd hx (hbefore b hb b hb (.inl rfl) v' hv)
        · exact ⟨b, hb', rfl⟩
  rw [mem_workers]
  constructor
  · rintro ⟨before, e, rest, heq, hc⟩
    have he : e ∈ l := by simp [heq]
    rcases hc with hc | hc
    · obtain ⟨rfl, hw⟩ := (hsuffix heq e.u (.inl rfl)).mp hc
      exact ⟨⟨e, he, .inl rfl⟩, hw⟩
    · obtain ⟨rfl, hw⟩ := (hsuffix heq e.v (.inr rfl)).mp hc
      exact ⟨⟨e, he, .inr rfl⟩, hw⟩
  · rintro ⟨⟨e, he, hv⟩, hw⟩
    obtain ⟨before, rest, heq⟩ := List.append_of_mem he
    refine ⟨before, e, rest, heq, ?_⟩
    rcases hv with rfl | rfl
    · exact .inl ((hsuffix heq _ (.inl rfl)).mpr ⟨rfl, hw⟩)
    · exact .inr ((hsuffix heq _ (.inr rfl)).mpr ⟨rfl, hw⟩)

/-! ### The passes -/

lemma workers_viaTimestamp (source sink : Node) :
    (addVirtualEdgeViaTimestamp source sink edges).workers =
      workers addVirtualEdgeViaTimestampImpl (sortByKey (fun edge => edge.u.timestamp) edges) := by
  rw [addVirtualEdgeViaTimestamp]
  dsimp only
  split <;> rfl

section Passes

variable (h : InOrder edges)
include h

lemma InOrder.mem_seqWorkers {source sink : Node} :
    (v, w) ∈ (addVirtualEdgeViaSeqV2 source sink edges).workers.flatten ↔
      EndpointIn edges v ∧ SeqNext (Leads (TailIn edges)) v w := by
  -- the edges are already sorted
  have hsort : sortByKey (fun edge => edge.u.seq) edges = edges := by
    refine List.mergeSort_of_pairwise (h.sorted.imp fun {a b} hab => ?_)
    rw [Behind] at hab
    simp only [decide_eq_true_eq]
    omega
  simp only [addVirtualEdgeViaSeqV2, hsort]
  refine mem_workers_iff h.sorted (fun hT x => Scan.first_congr (fun x y hs hx => ?_) hT)
    (fun hsub hrest => ?_) fun b hb e he hbe v hv hlater => ?_
  · rw [Later, hs.1, hs.2]
    exact hx
  · exact mem_viaSeqFrom hrest fun a ha b hb => h.rank_inj a (hsub ha) b (hsub hb)
  · have := h.le he hv
    have hlt := hlater.2
    rw [Behind] at hbe
    rcases hbe with rfl | hbe <;> omega

lemma InOrder.mem_timestampWorkers {source sink : Node} :
    (v, w) ∈ (addVirtualEdgeViaTimestamp source sink edges).workers.flatten ↔
      EndpointIn edges v ∧ TimestampNext (TailIn edges) v w := by
  have hmem {e : Edge} : e ∈ sortByKey (fun edge => edge.u.timestamp) edges ↔ e ∈ edges :=
    List.mem_mergeSort
  have hsorted : (sortByKey (fun edge => edge.u.timestamp) edges).Pairwise fun a b =>
      a.u.timestamp < b.u.timestamp ∨ a.u.timestamp = b.u.timestamp ∧ a.u.seq ≤ b.u.seq := by
    refine (Scan.pairwise_mergeSort_stable h.nodup h.sorted).imp fun {a b} hab => ?_
    rw [Behind] at hab
    omega
  have hiff := mem_workers_iff (v := v) (w := w) (F := id) hsorted (fun {_ _ _} hT => hT)
    (fun {_ _ _} _ hrest => mem_viaTimestampFrom hrest) fun b hb e he hbe v hv hlater => ?_
  · rw [workers_viaTimestamp]
    refine hiff.trans (and_congr ?_ (Scan.nearest_congr fun x _ => ?_))
    · simp only [EndpointIn, hmem]
    · simp only [TailIn, id_eq, hmem]
  · have := h.le (hmem.mp he) hv
    obtain ⟨htime, hlt⟩ := hlater
    rcases hbe with rfl | hbe <;> omega

end Passes

/-! ### The graph of a trace -/

section Constructed

variable {insts : List RiscvInstruction} {s s' : Graph}

/-- Nodes of the instructions are told apart by their names. -/
lemma Located.name_inj {g : DiGraph String Node Edge} {a b : Node} (h : Located insts g)
    (ha : a.In insts) (hb : b.In insts) (heq : a.name = b.name) : a = b := by
  obtain ⟨i, hi, ha⟩ := ha
  obtain ⟨j, hj, hb⟩ := hb
  have hfound := h.found i hi a ha
  rw [heq, h.found j hj b hb] at hfound
  simpa using hfound.symm

/-- The nodes of a trace are listed by their instructions and, for an instruction whose stages do
not go back in time, by their times. -/
lemma pairwise_nodes (hd : Descending insts)
    (htime : ∀ i ∈ insts, (modelNodes i).Pairwise fun a b => a.timestamp ≤ b.timestamp) :
    (insts.reverse.flatMap modelNodes).Pairwise Behind := by
  rw [List.pairwise_flatMap]
  refine ⟨fun i hi => ?_, List.pairwise_reverse.mpr (hd.imp fun {i j} hij a ha b hb => ?_)⟩
  · have hboth := (htime i (List.mem_reverse.mp hi)).and (pairwise_rank i)
    refine hboth.imp_of_mem fun {a b} ha hb hab => .inr ⟨?_, hab.1, hab.2.le⟩
    rw [seq_of_mem ha, seq_of_mem hb]
  · rw [Behind, seq_of_mem ha, seq_of_mem hb]
    exact .inl hij

/-- Nodes of the instructions are told apart by their places. -/
lemma Node.In.eq_of_rank (hd : Descending insts) {a b : Node} (ha : a.In insts) (hb : b.In insts)
    (h : a.rank = b.rank) : a = b := by
  have hsorted : (insts.reverse.flatMap modelNodes).Pairwise fun a b => a.rank < b.rank := by
    rw [List.pairwise_flatMap]
    refine ⟨fun i _ => pairwise_rank i, List.pairwise_reverse.mpr (hd.imp fun hij a ha b hb => ?_)⟩
    refine Node.rank_lt_of_seq ?_
    rw [seq_of_mem ha, seq_of_mem hb]
    exact hij
  have hnodup : ((insts.reverse.flatMap modelNodes).map Node.rank).Nodup :=
    List.pairwise_map.mpr (hsorted.imp fun h => h.ne)
  have hmem {n : Node} (hn : n.In insts) : n ∈ insts.reverse.flatMap modelNodes := by
    obtain ⟨i, hi, hn⟩ := hn
    exact List.mem_flatMap.mpr ⟨i, List.mem_reverse.mpr hi, hn⟩
  exact List.inj_on_of_nodup_map hnodup (hmem ha) (hmem hb) h

/-- An edge between instructions leads to a later one. -/
lemma Constructed.seq_lt (h : Constructed insts s) (hd : Descending insts) {k : String × String}
    {e : Edge} (hk : s.graph.edges.get? k = some e) (hseq : e.u.seq ≠ e.v.seq) :
    e.u.seq < e.v.seq := by
  rcases Core.mem_traceEdges hd (h.mem_traceEdges hk).1 with ⟨i, -, hi⟩ | ⟨_, _, _, _, ho, hcross⟩
  · obtain ⟨hu, hv⟩ := ends_mem_modelNodes e hi
    exact absurd ((seq_of_mem hu).trans (seq_of_mem hv).symm) hseq
  · exact hcross.seq_lt ho

lemma Constructed.inOrder (h : Constructed insts s) (hd : Descending insts)
    (htime : ∀ i ∈ insts, (modelNodes i).Pairwise fun a b => a.timestamp ≤ b.timestamp)
    (hforward : ∀ e ∈ s.skewEdges, e.u.timestamp ≤ e.v.timestamp) : InOrder s.skewEdges where
  nodup := by
    refine (List.Nodup.filterMap (fun k k' e hk hk' => ?_) DiGraph.nodup_edgeList).filter _
    exact (h.mem_traceEdges hk).2.trans (h.mem_traceEdges hk').2.symm
  sorted := by
    -- the edges are listed by the places of their tails
    have hkeys : s.graph.nodes.keys.Pairwise fun x y =>
        ∀ a b : Node, a.In insts → b.In insts → a.name = x → b.name = y → Behind a b := by
      rw [h.keys_eq, List.pairwise_map]
      refine (pairwise_nodes hd htime).imp_of_mem fun {m n} hm hn hmn a b ha hb hma hnb => ?_
      have hin {x : Node} (hx : x ∈ insts.reverse.flatMap modelNodes) : x.In insts := by
        obtain ⟨i, hi, hx⟩ := List.mem_flatMap.mp hx
        exact ⟨i, List.mem_reverse.mp hi, hx⟩
      rw [h.located.name_inj ha (hin hm) hma, h.located.name_inj hb (hin hn) hnb]
      exact hmn
    refine List.Pairwise.filter _ (List.pairwise_filterMap.mpr ?_)
    refine (DiGraph.pairwise_edgeList hkeys).imp fun {k k'} hkk e he e' he' => ?_
    obtain ⟨hmem, rfl⟩ := h.mem_traceEdges he
    obtain ⟨hmem', rfl⟩ := h.mem_traceEdges he'
    have hu := (owned_traceEdges hd hmem).1
    have hu' := (owned_traceEdges hd hmem').1
    rcases hkk with heq | hlt
    · rw [h.located.name_inj hu hu' heq]
      exact .inr ⟨rfl, le_rfl, le_rfl⟩
    · exact hlt e.u e'.u hu hu' rfl rfl
  forward := by
    intro e he
    obtain ⟨⟨k, hk⟩, hseq⟩ := mem_skewEdges.mp he
    exact ⟨h.seq_lt hd hk hseq, hforward e he⟩
  rank_inj := by
    intro a ha b hb
    obtain ⟨⟨k, hk⟩, -⟩ := mem_skewEdges.mp ha
    obtain ⟨⟨k', hk'⟩, -⟩ := mem_skewEdges.mp hb
    exact Node.In.eq_of_rank hd (owned_traceEdges hd (h.mem_traceEdges hk).1).1
      (owned_traceEdges hd (h.mem_traceEdges hk').1).1

/-- The first fetch is no end of an edge between instructions. -/
lemma Constructed.not_endpoint_source (h : Constructed insts s) (hd : Descending insts)
    {first : RiscvInstruction} (hfirst : insts.getLast? = some first) :
    ¬EndpointIn s.skewEdges (nodeF1 first) := by
  rintro ⟨e, he, hv⟩
  obtain ⟨⟨k, hk⟩, hseq⟩ := mem_skewEdges.mp he
  rcases hv with hu | hv
  · exact (h.skewOk hd hk hseq).tail (hu ▸ rfl)
  · -- the tail of the edge would belong to an instruction before the first one
    obtain ⟨⟨i, hi, hu⟩, -⟩ := owned_traceEdges hd (h.mem_traceEdges hk).1
    have hle : first.seq ≤ i.seq := by
      obtain ⟨before, rfl⟩ := List.getLast?_eq_some_iff.mp hfirst
      rcases List.mem_append.mp hi with hi | hi
      · exact ((List.pairwise_append.mp hd).2.2 i hi first List.mem_cons_self).le
      · rw [List.mem_singleton.mp hi]
    have hlt := h.seq_lt hd hk hseq
    rw [seq_of_mem hu, ← hv] at hlt
    exact absurd hlt (not_lt.mpr hle)

/-- The last commit is no end of an edge between instructions. -/
lemma Constructed.not_endpoint_sink {last : RiscvInstruction} (h : Constructed (last :: insts) s)
    (hd : Descending (last :: insts)) : ¬EndpointIn s.skewEdges (nodeCommit last) := by
  rintro ⟨e, he, hv⟩
  obtain ⟨⟨k, hk⟩, hseq⟩ := mem_skewEdges.mp he
  rcases hv with hu | hv
  · -- the head of the edge would belong to an instruction behind the last one
    obtain ⟨-, i, hi, hv⟩ := owned_traceEdges hd (h.mem_traceEdges hk).1
    have hle : i.seq ≤ last.seq := by
      rcases List.mem_cons.mp hi with rfl | hi
      exacts [le_rfl, ((List.pairwise_cons.mp hd).1 i hi).le]
    have hlt := h.seq_lt hd hk hseq
    rw [seq_of_mem hv, ← hu] at hlt
    exact absurd hlt (not_lt.mpr hle)
  · exact (h.skewOk hd hk hseq).head (hv ▸ rfl)

lemma snd_of_mem_tailCalls {key : Node → ℤ} {sink : Node} {c : Call}
    (h : c ∈ (tailCalls key sink edges).1) : c.2 = sink := by
  unfold tailCalls at h
  split at h
  · simp at h
  · obtain ⟨e, -, rfl⟩ := List.mem_map.mp h
    rfl

lemma fst_of_mem_seqHeadCalls {source : Node} {c : Call} (h : c ∈ seqHeadCalls source edges) :
    c.1 = source := by
  unfold seqHeadCalls at h
  split at h
  · rw [List.mem_singleton.mp h]
  · simp at h

lemma fst_of_mem_timestampHeadCalls {source : Node} {second : Option Edge} {c : Call}
    (h : c ∈ (timestampHeadCalls source second edges).1) : c.1 = source := by
  induction edges with
  | nil => simp [timestampHeadCalls] at h
  | cons e rest ih =>
    unfold timestampHeadCalls at h
    split_ifs at h
    · rw [List.mem_singleton.mp h]
    · split at h
      · split_ifs at h
        · simp at h
        · exact ih h
      · exact ih h

/-- The calls that are not made by a worker start at the first fetch or lead to the last commit. -/
lemma ends_of_mem_calls {source sink : Node} {c : Call}
    (h : c ∈ (addVirtualEdgeViaTimestamp source sink edges).calls ∨
      c ∈ (addVirtualEdgeViaSeqV2 source sink edges).calls) : c.1 = source ∨ c.2 = sink := by
  rcases h with h | h
  · unfold addVirtualEdgeViaTimestamp at h
    dsimp only at h
    split at h
    next head error heq => exact .inl (fst_of_mem_timestampHeadCalls (by rw [heq]; exact h))
    next head heq =>
      rcases List.mem_append.mp h with h | h
      · exact .inl (fst_of_mem_timestampHeadCalls (by rw [heq]; exact h))
      · exact .inr (snd_of_mem_tailCalls h)
  · rcases List.mem_append.mp h with h | h
    · exact .inl (fst_of_mem_seqHeadCalls h)
    · exact .inr (snd_of_mem_tailCalls h)

/-- The calls between the ends of the edges between instructions. -/
lemma Constructed.mem_virtualEdgeCalls (h : Constructed insts s) (hd : Descending insts)
    (hne : insts ≠ []) (horder : InOrder s.skewEdges) :
    ∃ calls, s.virtualEdgeCalls = .ok calls ∧ (∀ c ∈ calls, Linkable insts c) ∧
      ∀ v w, EndpointIn s.skewEdges v → EndpointIn s.skewEdges w → ((v, w) ∈ calls ↔
        TimestampNext (TailIn s.skewEdges) v w ∨ SeqNext (Leads (TailIn s.skewEdges)) v w) := by
  obtain ⟨calls, hcalls, hlink⟩ := h.virtualEdgeCalls hd hne
  refine ⟨calls, hcalls, hlink, fun v w hv hw => ?_⟩
  obtain ⟨last, rest, rfl⟩ := List.exists_cons_of_ne_nil hne
  obtain ⟨first, hfirst⟩ : ∃ first, (last :: rest).getLast? = some first :=
    ⟨_, List.getLast?_eq_getLast_of_ne_nil hne⟩
  have hm := h.modelled (T := False) False.elim hd
  rw [Graph.virtualEdgeCalls, hm.sourceNode hfirst, hm.sinkNode rfl] at hcalls
  rw [← Except.ok.inj hcalls]
  have hother : ¬((v, w) ∈ (addVirtualEdgeViaTimestamp (nodeF1 first) (nodeCommit last)
      s.skewEdges).calls ∨ (v, w) ∈ (addVirtualEdgeViaSeqV2 (nodeF1 first) (nodeCommit last)
      s.skewEdges).calls) := by
    intro hcall
    rcases ends_of_mem_calls hcall with rfl | rfl
    · exact h.not_endpoint_source hd hfirst hv
    · exact h.not_endpoint_sink hd hw
  rw [not_or] at hother
  simp only [List.mem_append, horder.mem_timestampWorkers, horder.mem_seqWorkers, hother.1,
    hother.2, or_false, hv, true_and]

/-- The edges after the calls of the threads. Two nodes of one instruction and one time are not
joined. -/
lemma adj_constructInducedGraph {calls : List Call} {a b : String}
    (hrun : (constructInducedGraph calls).run s = (.ok (), s')) :
    s'.graph.Adj a b ↔ s.graph.Adj a b ∨
      ∃ c ∈ calls, c.1.eq c.2 = false ∧ c.1.name = a ∧ c.2.name = b := by
  induction calls generalizing s with
  | nil =>
    obtain rfl : s = s' := (Prod.mk.inj hrun).2
    simp
  | cons c calls ih =>
    rw [constructInducedGraph, List.forM_cons,
      Exec.run_bind_ok (run_addVirtualEdge c.1 c.2)] at hrun
    rw [ih hrun, Graph.join]
    simp only [List.exists_mem_cons_iff]
    split_ifs with hskip
    · rw [Bool.or_eq_true] at hskip
      constructor
      · exact Or.imp_right .inr
      · rintro (h | ⟨hne, rfl, rfl⟩ | h)
        · exact .inl h
        · exact .inl (of_decide_eq_true (hskip.resolve_left (by simp [hne])))
        · exact .inr h
    · have hjoin : (s.connect [virtualEdge c.1 c.2]).graph.Adj a b ↔
          (a = c.1.name ∧ b = c.2.name) ∨ s.graph.Adj a b := adj_addEdge
      rw [hjoin]
      rw [Bool.or_eq_true, not_or, Bool.not_eq_true] at hskip
      simp only [hskip.1, true_and, eq_comm (a := a), eq_comm (a := b)]
      tauto

end Constructed

end ArchExplorer.Core
