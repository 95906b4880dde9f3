import Mathlib.Data.List.TakeWhile
import ArchExplorer.Core.Construction
import ArchExplorer.Core.Analyze

/-!
# The induced graph

Whatever calls of the worker threads are executed, the virtual edges lead forward and take as long
as the time between their nodes, so that the graph stays one in which all edges do.
-/

namespace ArchExplorer.Core

open ArchExplorer.Lib

variable {insts : List RiscvInstruction} {i j : RiscvInstruction} {s : Graph} {n u v : Node}
  {g : DiGraph String Node Edge} {e : Edge} {T : Prop}

/-- The node belongs to one of the instructions. -/
def Node.In (insts : List RiscvInstruction) (n : Node) : Prop := ∃ i ∈ insts, n ∈ modelNodes i

/-- The graph holds the chains of the instructions, and all of its edges are `EdgeOk`. -/
structure Linked (T : Prop) (insts : List RiscvInstruction) (g : DiGraph String Node Edge) :
    Prop where
  edge : ∀ {k e}, g.edges.get? k = some e → k = (e.u.name, e.v.name) ∧ e.Owned insts ∧ EdgeOk T e
  chained : ∀ i ∈ insts, (modelNodes i).IsChain fun a b => g.Adj a.name b.name

/-- What the analysis keeps of the graph and of the list of instructions. -/
structure Modelled (T : Prop) (insts : List RiscvInstruction) (s : Graph) : Prop where
  located : Located insts s.graph
  linked : Linked T insts s.graph
  insts_eq : s.insts = insts

/-- Every edge that leads to a fetch has a positive cost. -/
def Paced (g : DiGraph String Node Edge) : Prop :=
  ∀ {k e}, g.edges.get? k = some e → e.v.stage = .f1 → 0 < e.cost

/-! ### The constructed graph -/

lemma Constructed.mem_traceEdges (h : Constructed insts s) {k : String × String}
    (hk : s.graph.edges.get? k = some e) : e ∈ traceEdges insts ∧ k = (e.u.name, e.v.name) := by
  rw [h.edges_eq] at hk
  exact mem_of_edgeDict hk

lemma Constructed.linked (h : Constructed insts s) (hl : T → ∀ i ∈ insts, i.Legal)
    (hd : Descending insts) : Linked T insts s.graph where
  edge := by
    intro k e hk
    obtain ⟨hmem, hkey⟩ := h.mem_traceEdges hk
    refine ⟨hkey, owned_traceEdges hd hmem, ?_⟩
    rcases Core.mem_traceEdges hd hmem with ⟨i, hi, he⟩ | ⟨i, hi, p, hp, ho, hc⟩
    · exact (links_model fun ht => hl ht i hi).ok e he
    · exact hc.edgeOk (fun ht x hx => hl ht x (hp hx)) ho
  chained := by
    intro i hi
    refine (links_model fun ht => hl ht i hi).chain.imp ?_
    rintro a b ⟨e, he, rfl, rfl⟩
    rw [DiGraph.Adj, h.edges_eq]
    exact mem_keys_edgeDict (modelEdges_subset hi he)

lemma Constructed.modelled (h : Constructed insts s) (hl : T → ∀ i ∈ insts, i.Legal)
    (hd : Descending insts) : Modelled T insts s :=
  ⟨h.located, h.linked hl hd, h.insts_eq⟩

/-- Nodes of the same instruction are not connected to its fetch. -/
lemma EdgeOk.stage_ne_f1 (h : EdgeOk T e) (hseq : e.u.seq = e.v.seq) : e.v.stage ≠ .f1 := by
  intro hf1
  have hrank := h.rank
  rw [Node.rank, Node.rank, hseq, hf1] at hrank
  have : PipelineStage.f1.position = 0 := rfl
  omega

/-- The edges between different instructions start after the fetch and end before the commit, and
those that end in a fetch are positive. -/
structure SkewOk (e : Edge) : Prop where
  tail : e.u.stage ≠ .f1
  head : e.v.stage ≠ .commit
  pos : e.v.stage = .f1 → 0 < e.cost

lemma issuedNode_stage : (issuedNode i).stage = .di ∨ (issuedNode i).stage = .issue := by
  unfold issuedNode
  split_ifs
  · exact .inl rfl
  · exact .inr rfl

lemma CrossEdge.skewOk {past : List RiscvInstruction} (h : CrossEdge past i e) : SkewOk e := by
  cases h with
  | @miss prev hprev hcontrol hlt btnk =>
    refine ⟨fun h => ?_, fun h => ?_, fun _ => sub_pos.mpr hlt⟩
    swap
    · cases h
    have hu : (completedNode prev).stage = .mp ∨ _ := completedNode_stage
    simp only [skewEdge] at h
    rw [h] at hu
    simp at hu
  | rename hprev btnk =>
    refine ⟨fun h => ?_, fun h => ?_, fun h => ?_⟩ <;> cases h
  | @issue prev hprev btnk =>
    have hu := issuedNode_stage (i := prev)
    have hv := issuedNode_stage (i := i)
    refine ⟨fun h => ?_, fun h => ?_, fun h => ?_⟩ <;>
      simp only [issueEdge, skewEdge] at h
    · rw [h] at hu; simp at hu
    · rw [h] at hv; simp at hv
    · rw [h] at hv; simp at hv

lemma Constructed.skewOk (h : Constructed insts s) (hd : Descending insts) {k : String × String}
    (hk : s.graph.edges.get? k = some e) (hne : e.u.seq ≠ e.v.seq) : SkewOk e := by
  rcases Core.mem_traceEdges hd (h.mem_traceEdges hk).1 with ⟨i, hi, he⟩ | ⟨i, hi, p, hp, ho, hc⟩
  · obtain ⟨hu, hv⟩ := ends_mem_modelNodes e he
    exact absurd ((seq_of_mem hu).trans (seq_of_mem hv).symm) hne
  · exact hc.skewOk

lemma Constructed.paced (h : Constructed insts s) (hd : Descending insts) : Paced s.graph := by
  intro k e hk hf1
  by_cases hseq : e.u.seq = e.v.seq
  · exact absurd hf1 (((h.linked False.elim hd).edge hk).2.2.stage_ne_f1 hseq)
  · exact (h.skewOk hd hk hseq).pos hf1

/-! ### Virtual edges -/

lemma adj_addEdge {a b : String} : (g.addEdge u.name v.name e).Adj a b ↔
    (a = u.name ∧ b = v.name) ∨ g.Adj a b := by
  simp only [DiGraph.Adj, DiGraph.addEdge, Dict.mem_keys_set, Prod.mk.injEq]

lemma Linked.addEdge (h : Linked T insts g) (ho : e.Owned insts) (hok : EdgeOk T e) :
    Linked T insts (g.addEdge e.u.name e.v.name e) where
  edge := by
    intro k e' hk
    simp only [DiGraph.addEdge, Dict.get?_set] at hk
    split_ifs at hk with hkey
    · obtain rfl : e = e' := by simpa using hk
      exact ⟨hkey, ho, hok⟩
    · exact h.edge hk
  chained := fun i hi => (h.chained i hi).imp fun a b hab => adj_addEdge.mpr (.inr hab)

lemma Modelled.connect (h : Modelled T insts s) (ho : e.Owned insts) (hok : EdgeOk T e) :
    Modelled T insts (s.connect [e]) where
  located := h.located.connect (by simpa using ho)
  linked := h.linked.addEdge ho hok
  insts_eq := h.insts_eq

lemma edgeOk_virtualEdge (h : u.rank < v.rank) : EdgeOk T (virtualEdge u v) :=
  ⟨fun _ => rfl, h, fun _ => rfl⟩

/-- The state after `addVirtualEdge`. -/
def Graph.join (s : Graph) (u v : Node) : Graph :=
  if u.eq v || s.ifExistEdge u v then s else s.connect [virtualEdge u v]

lemma run_addVirtualEdge (u v : Node) : (addVirtualEdge u v).run s = (.ok (), s.join u v) := by
  rw [addVirtualEdge, Exec.run_bind_ok (Exec.run_get s), Graph.join]
  split_ifs <;> rfl

/-- A later state of the analysis: the graph has not lost or changed an edge, and the new edges are
free. -/
structure Grown (T : Prop) (insts : List RiscvInstruction) (s s' : Graph) : Prop where
  modelled : Modelled T insts s'
  bottleneck_eq : s'.bottleneck = s.bottleneck
  kept : ∀ {k e}, s.graph.edges.get? k = some e → s'.graph.edges.get? k = some e
  new : ∀ {k e}, s'.graph.edges.get? k = some e → s.graph.edges.get? k = some e ∨ e.cost = 0

lemma Grown.refl (h : Modelled T insts s) : Grown T insts s s := ⟨h, rfl, id, .inl⟩

lemma Grown.trans {s₁ s₂ : Graph} (h₁ : Grown T insts s s₁) (h₂ : Grown T insts s₁ s₂) :
    Grown T insts s s₂ :=
  ⟨h₂.modelled, h₂.bottleneck_eq.trans h₁.bottleneck_eq, fun hk => h₂.kept (h₁.kept hk),
    fun hk => (h₂.new hk).elim h₁.new .inr⟩

lemma Grown.adj {s' : Graph} (h : Grown T insts s s') {a b : String} (hab : s.graph.Adj a b) :
    s'.graph.Adj a b := by
  obtain ⟨e, he⟩ := DiGraph.adj_iff.mp hab
  exact DiGraph.adj_iff.mpr ⟨e, h.kept he⟩

lemma Modelled.join (h : Modelled T insts s) (hu : u.In insts) (hv : v.In insts)
    (hrank : u.rank < v.rank) : Grown T insts s (s.join u v) := by
  unfold Graph.join
  split_ifs with hcase
  · exact .refl h
  · refine ⟨h.connect ⟨hu, hv⟩ (edgeOk_virtualEdge hrank), rfl, ?_, ?_⟩
    · intro k e hk
      have hne : k ≠ (u.name, v.name) := by
        rintro rfl
        rw [Bool.or_eq_true, not_or] at hcase
        exact hcase.2 (decide_eq_true (DiGraph.adj_iff.mpr ⟨e, hk⟩))
      exact (Dict.get?_set_ne _ _ hne).trans hk
    · intro k e hk
      have hset := (Dict.get?_set s.graph.edges (u.name, v.name) (virtualEdge u v) k).symm.trans hk
      split_ifs at hset
      · obtain rfl : virtualEdge u v = e := by simpa using hset
        exact .inr rfl
      · exact .inl hset

/-- Nodes with different coordinates are connected afterwards. -/
lemma adj_join (hne : u.eq v = false) : (s.join u v).graph.Adj u.name v.name := by
  unfold Graph.join
  rw [hne, Bool.false_or]
  split_ifs with hex
  · exact of_decide_eq_true hex
  · exact adj_addEdge.mpr (.inl ⟨rfl, rfl⟩)

lemma Paced.join (h : Paced s.graph) (hv : v.stage ≠ .f1) : Paced (s.join u v).graph := by
  intro k e hk hf1
  unfold Graph.join at hk
  split_ifs at hk
  · exact h hk hf1
  · simp only [Graph.connect, List.foldl_cons, List.foldl_nil, DiGraph.addEdge,
      Dict.get?_set] at hk
    split_ifs at hk
    · obtain rfl : virtualEdge u v = e := by simpa using hk
      exact absurd hf1 hv
    · exact h hk hf1

/-! ### The calls of the threads -/

/-- The calls that keep the graph in order: they lead forward and not to a fetch. -/
structure Linkable (insts : List RiscvInstruction) (c : Call) : Prop where
  left : c.1.In insts
  right : c.2.In insts
  rank : c.1.rank < c.2.rank
  stage : c.2.stage ≠ .f1

lemma constructInducedGraph_returns {calls : List Call} (hc : ∀ c ∈ calls, Linkable insts c)
    (h : Modelled T insts s) (hp : Paced s.graph) :
    ∃ s', (constructInducedGraph calls).run s = (.ok (), s') ∧ Grown T insts s s' ∧
      Paced s'.graph := by
  induction calls generalizing s with
  | nil => exact ⟨s, rfl, .refl h, hp⟩
  | cons c calls ih =>
    obtain ⟨hc, hcalls⟩ := List.forall_mem_cons.mp hc
    have hgrown := h.join hc.left hc.right hc.rank
    obtain ⟨s', hrest, hgrown', hp'⟩ := ih hcalls hgrown.modelled (hp.join hc.stage)
    refine ⟨s', ?_, hgrown.trans hgrown', hp'⟩
    rw [constructInducedGraph, List.forM_cons, Exec.run_bind_ok (run_addVirtualEdge c.1 c.2)]
    exact hrest

/-- What the workers know about the edges that they are given. -/
structure SkewIn (insts : List RiscvInstruction) (e : Edge) : Prop where
  left : e.u.In insts
  right : e.v.In insts
  ok : SkewOk e

variable {rest : List Edge}

lemma linkable_viaSeqFrom (hv : v.In insts) (hr : ∀ e ∈ rest, SkewIn insts e) :
    ∀ c ∈ viaSeqFrom rest v, Linkable insts c := by
  unfold viaSeqFrom
  cases hf : rest.find? fun edge => v.seq < edge.u.seq ∧ v.timestamp ≤ edge.u.timestamp with
  | none   => simp
  | some e =>
    have hlt : v.seq < e.u.seq ∧ v.timestamp ≤ e.u.timestamp := by simpa using List.find?_some hf
    have he := hr e (List.mem_of_find?_eq_some hf)
    simpa using Linkable.mk hv he.left (Node.rank_lt_of_seq hlt.1) he.ok.tail

lemma linkable_viaSameTimestamp (t : ℤ) (hv : v.In insts) (hr : ∀ e ∈ rest, SkewIn insts e) :
    ∀ c ∈ viaSameTimestamp t v rest, Linkable insts c := by
  intro c hc
  obtain ⟨e, he, rfl⟩ := List.mem_map.mp hc
  have hlt : v.seq < e.u.seq ∧ t = e.u.timestamp := by
    simpa using List.mem_takeWhile_imp he
  have hskew := hr e (List.takeWhile_subset _ he)
  exact ⟨hv, hskew.left, Node.rank_lt_of_seq hlt.1, hskew.ok.tail⟩

lemma linkable_viaTimestampFrom (hv : v.In insts) (hr : ∀ e ∈ rest, SkewIn insts e) :
    ∀ c ∈ viaTimestampFrom rest v, Linkable insts c := by
  unfold viaTimestampFrom
  cases hd : rest.dropWhile fun edge =>
      ¬ (v.timestamp ≤ edge.u.timestamp ∧ v.seq < edge.u.seq) with
  | nil =>
    exact linkable_viaSameTimestamp _ hv fun e he => hr e (List.mem_of_mem_drop he)
  | cons e rest' =>
    have hsub : ∀ x ∈ e :: rest', x ∈ rest := fun x hx =>
      (List.dropWhile_suffix _).subset (hd ▸ hx)
    have hlt : v.timestamp ≤ e.u.timestamp ∧ v.seq < e.u.seq := by
      have hnot := List.head?_dropWhile_not (fun edge : Edge =>
        decide (¬ (v.timestamp ≤ edge.u.timestamp ∧ v.seq < edge.u.seq))) rest
      rw [hd] at hnot
      simpa using hnot
    have he := hr e (hsub e List.mem_cons_self)
    refine List.forall_mem_cons.mpr ⟨⟨hv, he.left, Node.rank_lt_of_seq hlt.2, he.ok.tail⟩, ?_⟩
    exact linkable_viaSameTimestamp _ hv fun x hx => hr x (hsub x (List.mem_cons_of_mem _ hx))

variable {edges : List Edge} {source sink : Node} {first last : RiscvInstruction}

lemma skewIn_drop (he : ∀ e ∈ edges, SkewIn insts e) (k : ℕ) : ∀ e ∈ edges.drop k, SkewIn insts e :=
  fun e hmem => he e (List.mem_of_mem_drop hmem)

/-- The calls of all workers of a pass. -/
lemma linkable_workers {impl : ℕ → Edge → List Edge → List Call}
    (himpl : ∀ idx, ∀ e ∈ edges, ∀ c ∈ impl idx e edges, Linkable insts c) :
    ∀ c ∈ (workers impl edges).flatten, Linkable insts c := by
  intro c hc
  obtain ⟨l, hl, hc⟩ := List.mem_flatten.mp hc
  obtain ⟨⟨e, idx⟩, he, rfl⟩ := List.mem_map.mp hl
  exact himpl idx e (List.fst_mem_of_mem_zipIdx he) c hc

/-- The commit of the newest instruction comes after every node but itself. -/
lemma rank_lt_commit (hd : Descending (last :: insts)) (hv : v.In (last :: insts))
    (hstage : v.stage ≠ .commit) : v.rank < (nodeCommit last).rank := by
  obtain ⟨i, hi, hn⟩ := hv
  have hle : i.seq ≤ last.seq := by
    rcases List.mem_cons.mp hi with rfl | hi
    · exact le_rfl
    · exact ((List.pairwise_cons.mp hd).1 i hi).le
  have hpos : v.stage.position < 9 := by
    cases hs : v.stage <;> simp_all [PipelineStage.position]
  have hcommit : (nodeCommit last).rank = 10 * last.seq + 9 := rfl
  rw [hcommit, Node.rank, seq_of_mem hn]
  omega

lemma linkable_tailCalls (key : Node → ℤ) (hd : Descending (last :: insts))
    (he : ∀ e ∈ edges, SkewIn (last :: insts) e) :
    ∀ c ∈ (tailCalls key (nodeCommit last) edges).1, Linkable (last :: insts) c := by
  unfold tailCalls
  have hrev : ∀ e ∈ edges.reverse, SkewIn (last :: insts) e :=
    fun e hmem => he e (List.mem_reverse.mp hmem)
  cases hl : edges.reverse with
  | nil => simp
  | cons e rest =>
    rw [hl] at hrev
    intro c hc
    obtain ⟨e', hmem, rfl⟩ := List.mem_map.mp hc
    have hskew : SkewIn (last :: insts) e' := by
      rcases List.mem_cons.mp hmem with rfl | hmem
      · exact hrev e' List.mem_cons_self
      · exact hrev e' (List.mem_cons_of_mem _ (List.takeWhile_subset _ hmem))
    exact ⟨hskew.right, ⟨last, List.mem_cons_self, nodeCommit_mem⟩,
      rank_lt_commit hd hskew.right hskew.ok.head, nofun⟩

lemma linkable_seqHead (hs : source.In insts) (he : ∀ e ∈ edges, SkewIn insts e) :
    ∀ c ∈ seqHeadCalls source edges, Linkable insts c := by
  unfold seqHeadCalls
  cases hf : edges.find? fun edge => source.seq < edge.u.seq with
  | none   => simp
  | some e =>
    have hlt : source.seq < e.u.seq := by simpa using List.find?_some hf
    have hskew := he e (List.mem_of_find?_eq_some hf)
    simpa using Linkable.mk hs hskew.left (Node.rank_lt_of_seq hlt) hskew.ok.tail

lemma linkable_timestampHead (second : Option Edge) (hs : source.In insts)
    (he : ∀ e ∈ edges, SkewIn insts e) :
    ∀ c ∈ (timestampHeadCalls source second edges).1, Linkable insts c := by
  induction edges with
  | nil => simp [timestampHeadCalls]
  | cons e rest ih =>
    obtain ⟨hskew, hrest⟩ := List.forall_mem_cons.mp he
    unfold timestampHeadCalls
    by_cases hlt : source.seq < e.u.seq
    · rw [if_pos hlt]
      simpa using Linkable.mk hs hskew.left (Node.rank_lt_of_seq hlt) hskew.ok.tail
    · rw [if_neg hlt]
      cases second with
      | none    => exact ih hrest
      | some e' =>
        dsimp only
        split_ifs
        · simp
        · exact ih hrest

lemma skewIn_sortByKey (key : Edge → ℤ) (he : ∀ e ∈ edges, SkewIn insts e) :
    ∀ e ∈ sortByKey key edges, SkewIn insts e :=
  fun e hmem => he e (List.mem_mergeSort.mp hmem)

lemma linkable_viaSeq (hd : Descending (last :: insts)) (hs : source.In (last :: insts))
    (he : ∀ e ∈ edges, SkewIn (last :: insts) e) (c : Call) :
    let pass := addVirtualEdgeViaSeqV2 source (nodeCommit last) edges
    c ∈ pass.workers.flatten ++ pass.calls → Linkable (last :: insts) c := by
  have hsort := skewIn_sortByKey (fun edge => edge.u.seq) he
  revert c
  simp only [addVirtualEdgeViaSeqV2, List.forall_mem_append]
  refine ⟨linkable_workers fun idx e hmem => ?_, linkable_seqHead hs hsort,
    linkable_tailCalls _ hd hsort⟩
  have hskew := hsort e hmem
  have hdrop := skewIn_drop hsort (idx + 1)
  exact List.forall_mem_append.mpr
    ⟨linkable_viaSeqFrom hskew.left hdrop, linkable_viaSeqFrom hskew.right hdrop⟩

lemma linkable_viaTimestamp (hd : Descending (last :: insts)) (hs : source.In (last :: insts))
    (he : ∀ e ∈ edges, SkewIn (last :: insts) e) (c : Call) :
    let pass := addVirtualEdgeViaTimestamp source (nodeCommit last) edges
    c ∈ pass.workers.flatten ++ pass.calls → Linkable (last :: insts) c := by
  have hsort := skewIn_sortByKey (fun edge => edge.u.timestamp) he
  have himpl : ∀ idx, ∀ e ∈ sortByKey (fun edge => edge.u.timestamp) edges,
      ∀ c ∈ addVirtualEdgeViaTimestampImpl idx e (sortByKey (fun edge => edge.u.timestamp) edges),
        Linkable (last :: insts) c := by
    intro idx e hmem
    have hskew := hsort e hmem
    have hdrop := skewIn_drop hsort (idx + 1)
    exact List.forall_mem_append.mpr
      ⟨linkable_viaTimestampFrom hskew.left hdrop, linkable_viaTimestampFrom hskew.right hdrop⟩
  have hworkers := linkable_workers himpl
  have hhead := linkable_timestampHead
    (sortByKey (fun edge => edge.u.timestamp) edges)[1]? hs hsort
  revert c
  simp only [addVirtualEdgeViaTimestamp]
  -- the thread dies in its head, or goes on to its tail
  rcases htail : timestampHeadCalls source _ _ with ⟨head, _ | err⟩ <;> rw [htail] at hhead
  · exact List.forall_mem_append.mpr ⟨hworkers, List.forall_mem_append.mpr
      ⟨hhead, linkable_tailCalls _ hd hsort⟩⟩
  · exact List.forall_mem_append.mpr ⟨hworkers, hhead⟩

lemma Modelled.sourceNode (h : Modelled T insts s) (hfirst : insts.getLast? = some first) :
    s.sourceNode = .ok (nodeF1 first) := by
  rw [Graph.sourceNode, h.insts_eq, hfirst]
  exact h.located.getNodeViaInst (List.mem_of_getLast? hfirst) .f1 nodeF1_mem rfl

lemma Modelled.sinkNode (h : Modelled T insts s) (hlast : insts.head? = some last) :
    s.sinkNode = .ok (nodeCommit last) := by
  rw [Graph.sinkNode, h.insts_eq, hlast]
  exact h.located.getNodeViaInst (List.mem_of_mem_head? hlast) .commit nodeCommit_mem rfl

/-- The edges that the passes start from. -/
lemma mem_skewEdges : e ∈ s.skewEdges ↔
    (∃ k, s.graph.edges.get? k = some e) ∧ e.u.seq ≠ e.v.seq := by
  simp only [Graph.skewEdges, List.mem_filter, List.mem_filterMap, decide_eq_true_eq]
  refine and_congr_left fun _ => ⟨?_, ?_⟩
  · rintro ⟨k, -, hk⟩
    exact ⟨k, hk⟩
  · rintro ⟨k, hk⟩
    exact ⟨k, DiGraph.mem_edgeList.mpr (DiGraph.adj_iff.mpr ⟨e, hk⟩), hk⟩

/-- The threads of the induced graph make calls that keep the graph in order. -/
lemma Constructed.virtualEdgeCalls (h : Constructed insts s) (hd : Descending insts)
    (hne : insts ≠ []) :
    ∃ calls, s.virtualEdgeCalls = .ok calls ∧ ∀ c ∈ calls, Linkable insts c := by
  obtain ⟨last, rest, rfl⟩ := List.exists_cons_of_ne_nil hne
  obtain ⟨first, hfirst⟩ : ∃ first, (last :: rest).getLast? = some first :=
    ⟨_, List.getLast?_eq_getLast_of_ne_nil hne⟩
  have hm := h.modelled (T := False) False.elim hd
  have hskew : ∀ e ∈ s.skewEdges, SkewIn (last :: rest) e := by
    intro e he
    obtain ⟨⟨k, hk⟩, hseq⟩ := mem_skewEdges.mp he
    obtain ⟨-, ⟨hu, hv⟩, -⟩ := hm.linked.edge hk
    exact ⟨hu, hv, h.skewOk hd hk hseq⟩
  have hsource : (nodeF1 first).In (last :: rest) :=
    ⟨first, List.mem_of_getLast? hfirst, nodeF1_mem⟩
  rw [Graph.virtualEdgeCalls, hm.sourceNode hfirst, hm.sinkNode rfl]
  refine ⟨_, rfl, List.forall_mem_append.mpr ⟨?_, ?_⟩⟩
  · exact linkable_viaTimestamp hd hsource hskew
  · exact linkable_viaSeq hd hsource hskew

end ArchExplorer.Core
