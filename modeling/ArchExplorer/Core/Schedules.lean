import ArchExplorer.Lib.Threads
import ArchExplorer.Core.GoldenLength
import ArchExplorer.Core.VirtualEdges

/-!
# Schedules of the induced graph

The induced graph is constructed by two threads, each of which starts a worker for every edge
between instructions and then makes a few calls of its own. Only the two threads are joined, so that
a worker may still have calls to make when the critical path is searched.
-/

namespace ArchExplorer.Core

open ArchExplorer.Lib Threads

variable {insts : List RiscvInstruction} {s s₁ s₂ : Graph} {edges l rest : List Edge} {v w : Node}
  {c : Call} {h h₁ h₂ : List Call}

/-! ### The threads -/

/-- The thread of a pass. -/
def Pass.thread (pass : Pass) : Prog Call :=
  .startAll (pass.workers.map .ofList) (.ofList pass.calls)

/-- The two threads that `construct_induced_graph` starts and joins. -/
def Graph.passThreads (s : Graph) : Except PyError (List (Prog Call)) := do
  let source ← s.sourceNode
  let sink ← s.sinkNode
  return [(addVirtualEdgeViaTimestamp source sink s.skewEdges).thread,
    (addVirtualEdgeViaSeqV2 source sink s.skewEdges).thread]

/-- Both graphs have the same edges, with the same attributes. -/
def SameEdges (s₁ s₂ : Graph) : Prop :=
  ∀ k, s₁.graph.edges.get? k = s₂.graph.edges.get? k

/-- The worker of an edge finds `w` behind the edge in the sorted list, for the end `v`. -/
def Finds (next : List Edge → Node → List Call) (sorted : List Edge) (v w : Node) : Prop :=
  ∃ before e rest, sorted = before ++ e :: rest ∧ (v = e.u ∨ v = e.v) ∧ (v, w) ∈ next rest v

/-- What the workers of the two passes find. -/
def Graph.Found (s : Graph) (v w : Node) : Prop :=
  Finds viaTimestampFrom (sortByKey (fun edge => edge.u.timestamp) s.skewEdges) v w ∨
    Finds viaSeqFrom (sortByKey (fun edge => edge.u.seq) s.skewEdges) v w

/-- All that the workers find is joined already. -/
def Settled (s : Graph) : Prop := ∀ v w, s.Found v w → s.graph.Adj v.name w.name

@[simp] lemma own_thread (pass : Pass) : pass.thread.own = pass.calls := by simp [Pass.thread]

@[simp] lemma all_thread (pass : Pass) :
    pass.thread.all = pass.workers.flatten ++ pass.calls := by
  simp [Pass.thread, List.flatMap_map, List.flatMap_id']

/-! ### What the workers find -/

/-- What a search returns: tails of edges in the list that belong to later instructions. -/
def Forwards (next : List Edge → Node → List Call) : Prop :=
  ∀ rest v, ∀ c ∈ next rest v, c.1 = v ∧ v.seq < c.2.seq ∧ ∃ e ∈ rest, c.2 = e.u

lemma forwards_viaSeqFrom : Forwards viaSeqFrom := by
  intro rest v c hc
  unfold viaSeqFrom at hc
  split at hc
  next edge hfind =>
    rw [List.mem_singleton.mp hc]
    have hp := List.find?_some hfind
    rw [decide_eq_true_eq] at hp
    exact ⟨rfl, hp.1, edge, List.mem_of_find?_eq_some hfind, rfl⟩
  next => simp at hc

lemma forwards_viaSameTimestamp (t : ℤ) : Forwards fun rest v => viaSameTimestamp t v rest := by
  intro rest v c hc
  obtain ⟨edge, hedge, rfl⟩ := List.mem_map.mp hc
  have hp := List.mem_takeWhile_imp hedge
  rw [decide_eq_true_eq] at hp
  exact ⟨rfl, hp.1, edge, List.takeWhile_subset _ hedge, rfl⟩

lemma forwards_viaTimestampFrom : Forwards viaTimestampFrom := by
  intro rest v c hc
  unfold viaTimestampFrom at hc
  split at hc
  next edge rest' hdrop =>
    have hsub : edge :: rest' ⊆ rest := hdrop ▸ List.dropWhile_subset _
    rcases List.mem_cons.mp hc with rfl | hc
    · -- the entry at which the search stops qualifies
      have hhead := List.head?_dropWhile_not
        (fun edge : Edge => decide ¬(v.timestamp ≤ edge.u.timestamp ∧ v.seq < edge.u.seq)) rest
      rw [hdrop] at hhead
      simp only [List.head?_cons, decide_eq_false_iff_not, not_not] at hhead
      exact ⟨rfl, hhead.2, edge, hsub List.mem_cons_self, rfl⟩
    · obtain ⟨h₁, h₂, e, he, h₃⟩ := forwards_viaSameTimestamp _ _ _ c hc
      exact ⟨h₁, h₂, e, hsub (List.mem_cons_of_mem _ he), h₃⟩
  next =>
    obtain ⟨h₁, h₂, e, he, h₃⟩ := forwards_viaSameTimestamp _ _ _ c hc
    exact ⟨h₁, h₂, e, List.drop_subset _ _ he, h₃⟩

/-- The calls of the workers that search with `next`. -/
def searches (next : List Edge → Node → List Call) (l : List Edge) : List Call :=
  (workers (fun idx edge es => next (es.drop (idx + 1)) edge.u ++
    next (es.drop (idx + 1)) edge.v) l).flatten

/-- The calls of the workers are what the searches find. -/
lemma Forwards.mem_searches_iff {next : List Edge → Node → List Call} (hn : Forwards next) :
    (v, w) ∈ searches next l ↔ Finds next l v w := by
  rw [searches, mem_workers]
  constructor
  · rintro ⟨before, e, rest, rfl, hc | hc⟩
    · obtain rfl : v = e.u := (hn _ _ _ hc).1
      exact ⟨before, e, rest, rfl, .inl rfl, hc⟩
    · obtain rfl : v = e.v := (hn _ _ _ hc).1
      exact ⟨before, e, rest, rfl, .inr rfl, hc⟩
  · rintro ⟨before, e, rest, rfl, rfl | rfl, hc⟩
    exacts [⟨before, e, rest, rfl, .inl hc⟩, ⟨before, e, rest, rfl, .inr hc⟩]

lemma Finds.ends {next : List Edge → Node → List Call} (hn : Forwards next)
    (hl : ∀ e ∈ l, e ∈ edges) (h : Finds next l v w) :
    EndpointIn edges v ∧ EndpointIn edges w ∧ v.seq < w.seq := by
  obtain ⟨before, e, rest, rfl, hv, hc⟩ := h
  obtain ⟨-, hlt, e', he', hw⟩ := hn _ _ _ hc
  exact ⟨⟨e, hl e (by simp), hv⟩, ⟨e', hl e' (by simp [he']), .inl hw⟩, hlt⟩

lemma Graph.Found.ends (h : s.Found v w) :
    EndpointIn s.skewEdges v ∧ EndpointIn s.skewEdges w ∧ v.seq < w.seq := by
  rcases h with h | h
  · exact h.ends forwards_viaTimestampFrom fun e he => List.mem_mergeSort.mp he
  · exact h.ends forwards_viaSeqFrom fun e he => List.mem_mergeSort.mp he

/-- The calls of the two passes and of their workers. -/
lemma mem_passes {source sink : Node} :
    (v, w) ∈ [(addVirtualEdgeViaTimestamp source sink s.skewEdges).thread,
        (addVirtualEdgeViaSeqV2 source sink s.skewEdges).thread].flatMap Prog.all ↔
      s.Found v w ∨ (v, w) ∈ [(addVirtualEdgeViaTimestamp source sink s.skewEdges).thread,
        (addVirtualEdgeViaSeqV2 source sink s.skewEdges).thread].flatMap Prog.own := by
  have hseq : (v, w) ∈ (addVirtualEdgeViaSeqV2 source sink s.skewEdges).workers.flatten ↔
      Finds viaSeqFrom (sortByKey (fun edge => edge.u.seq) s.skewEdges) v w :=
    forwards_viaSeqFrom.mem_searches_iff
  have htime : (v, w) ∈ (addVirtualEdgeViaTimestamp source sink s.skewEdges).workers.flatten ↔
      Finds viaTimestampFrom (sortByKey (fun edge => edge.u.timestamp) s.skewEdges) v w := by
    rw [workers_viaTimestamp]
    exact forwards_viaTimestampFrom.mem_searches_iff
  simp only [List.flatMap_cons, List.flatMap_nil, List.append_nil, all_thread, own_thread,
    List.mem_append, hseq, htime, Graph.Found]
  tauto

/-! ### The graph when the call returns -/

/-- The edges that the calls have added are virtual. -/
lemma get?_constructInducedGraph {calls : List Call} {k : String × String} {e : Edge}
    (hrun : (constructInducedGraph calls).run s = (.ok (), s₁))
    (hk : s₁.graph.edges.get? k = some e) : s.graph.edges.get? k = some e ∨
      ∃ c ∈ calls, k = (c.1.name, c.2.name) ∧ e = virtualEdge c.1 c.2 := by
  induction calls generalizing s with
  | nil =>
    obtain rfl : s = s₁ := (Prod.mk.inj hrun).2
    exact .inl hk
  | cons c calls ih =>
    rw [constructInducedGraph, List.forM_cons,
      Exec.run_bind_ok (run_addVirtualEdge c.1 c.2)] at hrun
    rcases ih hrun with hold | ⟨c', hc', hkey⟩
    · unfold Graph.join at hold
      split_ifs at hold
      · exact .inl hold
      · simp only [Graph.connect, List.foldl_cons, List.foldl_nil, DiGraph.addEdge,
          Dict.get?_set] at hold
        split_ifs at hold with heq
        · exact .inr ⟨c, List.mem_cons_self, heq, (Option.some.inj hold).symm⟩
        · exact .inl hold
    · exact .inr ⟨c', List.mem_cons_of_mem _ hc', hkey⟩

/-- Two graphs with edges between the same nodes have the same edges. -/
lemma Located.sameEdges (hs : Located insts s.graph) (hm : ∀ c ∈ h₁ ++ h₂, Linkable insts c)
    (hrun₁ : (constructInducedGraph h₁).run s = (.ok (), s₁))
    (hrun₂ : (constructInducedGraph h₂).run s = (.ok (), s₂))
    (hkept₁ : ∀ {k e}, s.graph.edges.get? k = some e → s₁.graph.edges.get? k = some e)
    (hkept₂ : ∀ {k e}, s.graph.edges.get? k = some e → s₂.graph.edges.get? k = some e)
    (hadj : ∀ a b, s₁.graph.Adj a b ↔ s₂.graph.Adj a b) : SameEdges s₁ s₂ := by
  intro k
  cases hk : s.graph.edges.get? k with
  | some e => rw [hkept₁ hk, hkept₂ hk]
  | none   =>
    cases hk₁ : s₁.graph.edges.get? k with
    | none =>
      have hno : ¬s₂.graph.Adj k.1 k.2 := by
        rw [← hadj, DiGraph.adj_iff]
        rintro ⟨e, he⟩
        exact absurd (hk₁.symm.trans he) nofun
      cases hk₂ : s₂.graph.edges.get? k with
      | none   => rfl
      | some e => exact absurd (DiGraph.adj_iff.mpr ⟨e, hk₂⟩) hno
    | some e =>
      obtain ⟨e', hk₂⟩ := DiGraph.adj_iff.mp ((hadj k.1 k.2).mp (DiGraph.adj_iff.mpr ⟨e, hk₁⟩))
      have hk₂ : s₂.graph.edges.get? k = some e' := hk₂
      rw [hk₂]
      -- the nodes of the two calls have the same names
      rcases get?_constructInducedGraph hrun₁ hk₁ with hold | ⟨c, hc, hkey, rfl⟩
      · exact absurd (hk.symm.trans hold) nofun
      rcases get?_constructInducedGraph hrun₂ hk₂ with hold | ⟨c', hc', hkey', rfl⟩
      · exact absurd (hk.symm.trans hold) nofun
      have hl := hm c (List.mem_append_left _ hc)
      have hl' := hm c' (List.mem_append_right _ hc')
      obtain ⟨h₁, h₂⟩ := Prod.mk.inj (hkey.symm.trans hkey')
      rw [hs.name_inj hl.left hl'.left h₁, hs.name_inj hl.right hl'.right h₂]

/-- What the two threads do: the calls keep the graph in order, and those that are not made by a
worker do not join two ends of edges between instructions. -/
structure PassThreads (insts : List RiscvInstruction) (s : Graph) (threads : List (Prog Call)) :
    Prop where
  linkable : ∀ c ∈ threads.flatMap Prog.all, Linkable insts c
  mem_all : ∀ v w, (v, w) ∈ threads.flatMap Prog.all ↔
    s.Found v w ∨ (v, w) ∈ threads.flatMap Prog.own
  own : ∀ c ∈ threads.flatMap Prog.own,
    ¬(EndpointIn s.skewEdges c.1 ∧ EndpointIn s.skewEdges c.2)

lemma Constructed.passThreads (hs : Constructed insts s) (hd : Descending insts)
    (hne : insts ≠ []) : ∃ threads, s.passThreads = .ok threads ∧ PassThreads insts s threads := by
  obtain ⟨calls, hcalls, hlink⟩ := hs.virtualEdgeCalls hd hne
  obtain ⟨last, rest, rfl⟩ := List.exists_cons_of_ne_nil hne
  obtain ⟨first, hfirst⟩ : ∃ first, (last :: rest).getLast? = some first :=
    ⟨_, List.getLast?_eq_getLast_of_ne_nil hne⟩
  have hm := hs.modelled (T := False) False.elim hd
  rw [Graph.virtualEdgeCalls, hm.sourceNode hfirst, hm.sinkNode rfl] at hcalls
  rw [Graph.passThreads, hm.sourceNode hfirst, hm.sinkNode rfl]
  refine ⟨_, rfl, ?_, fun v w => mem_passes, ?_⟩
  · intro c hc
    refine hlink c ?_
    rw [← Except.ok.inj hcalls]
    simpa using hc
  · rintro c hc ⟨hv, hw⟩
    simp only [List.flatMap_cons, List.flatMap_nil, own_thread, List.append_nil,
      List.mem_append] at hc
    rcases ends_of_mem_calls hc with heq | heq
    · exact hs.not_endpoint_source hd hfirst (heq ▸ hv)
    · exact hs.not_endpoint_sink hd (heq ▸ hw)

section Returns

variable {threads : List (Prog Call)} (ht : PassThreads insts s threads)
include ht

/-- Every schedule ends in a graph that has kept the edges. -/
lemma PassThreads.returns (hs : Constructed insts s) (hd : Descending insts)
    (hr : Returns threads h) :
    ∃ s', (constructInducedGraph h).run s = (.ok (), s') ∧
      (∀ {k e}, s.graph.edges.get? k = some e → s'.graph.edges.get? k = some e) := by
  obtain ⟨s', hrun, hgrown, -⟩ := constructInducedGraph_returns (T := False)
    (fun c hc => ht.linkable c (hr.subset_all hc)) (hs.modelled False.elim hd) (hs.paced hd)
  exact ⟨s', hrun, hgrown.kept⟩

/-- If the workers find nothing new, then the graph has the edges of the two threads. -/
lemma PassThreads.adj_settled (hsettled : Settled s) (hr : Returns threads h)
    (hrun : (constructInducedGraph h).run s = (.ok (), s₁)) {a b : String} :
    s₁.graph.Adj a b ↔ s.graph.Adj a b ∨ ∃ c ∈ threads.flatMap Prog.own,
      c.1.eq c.2 = false ∧ c.1.name = a ∧ c.2.name = b := by
  rw [adj_constructInducedGraph hrun]
  constructor
  · rintro (hadj | ⟨c, hc, hne, rfl, rfl⟩)
    · exact .inl hadj
    · rcases (ht.mem_all c.1 c.2).mp (hr.subset_all hc) with hfound | hown
      · exact .inl (hsettled _ _ hfound)
      · exact .inr ⟨c, hown, hne, rfl, rfl⟩
  · rintro (hadj | ⟨c, hc, hne⟩)
    · exact .inl hadj
    · exact .inr ⟨c, hr.own_subset hc, hne⟩

/-- If a worker finds something new, then the graph has this edge or not. -/
lemma PassThreads.differ (hs : Constructed insts s) (hfound : s.Found v w)
    (hnew : ¬s.graph.Adj v.name w.name) :
    ∃ h₁ h₂, Returns threads h₁ ∧ Returns threads h₂ ∧
      (∀ s₁, (constructInducedGraph h₁).run s = (.ok (), s₁) → ¬s₁.graph.Adj v.name w.name) ∧
      ∀ s₂, (constructInducedGraph h₂).run s = (.ok (), s₂) → s₂.graph.Adj v.name w.name := by
  obtain ⟨h₂, hr₂, hall⟩ := exists_returns_all threads
  have hmem := (ht.mem_all v w).mpr (.inl hfound)
  obtain ⟨hv, hw, hlt⟩ := hfound.ends
  refine ⟨_, h₂, returns_own threads, hr₂, fun s₁ hrun hadj => ?_, fun s₂ hrun => ?_⟩
  · rcases (adj_constructInducedGraph hrun).mp hadj with hold | ⟨c, hc, -, hcv, hcw⟩
    · exact hnew hold
    · -- a call of the two threads themselves would join the two ends
      have hlink := ht.linkable _ ((ht.mem_all c.1 c.2).mpr (.inr hc))
      have hlink' := ht.linkable _ hmem
      have h₁ : c.1 = v := hs.located.name_inj hlink.left hlink'.left hcv
      have h₂ : c.2 = w := hs.located.name_inj hlink.right hlink'.right hcw
      exact ht.own c hc ⟨h₁ ▸ hv, h₂ ▸ hw⟩
  · refine (adj_constructInducedGraph hrun).mpr (.inr ⟨(v, w), hall hmem, ?_, rfl, rfl⟩)
    exact decide_eq_false fun heq => hlt.ne heq.1

end Returns

/-- The graph does not depend on the schedule of the threads exactly if the workers find nothing
that is not joined already. -/
theorem inducedGraph_schedule_iff (trace : List TraceLine) :
    ∃ s, (constructGraph trace).run .init = (.ok (), s) ∧ (s.skewEdges ≠ [] →
      ∃ threads, s.passThreads = .ok threads ∧
        ((∀ h₁ h₂, Returns threads h₁ → Returns threads h₂ →
          ∃ s₁ s₂, (constructInducedGraph h₁).run s = (.ok (), s₁) ∧
            (constructInducedGraph h₂).run s = (.ok (), s₂) ∧ SameEdges s₁ s₂) ↔ Settled s)) := by
  obtain ⟨s, hrun, hs⟩ := constructGraph_returns trace
  refine ⟨s, hrun, fun hskew => ?_⟩
  have hd := descending_stream trace
  have hne : (instructionStream trace).reverse ≠ [] := by
    obtain ⟨e, he⟩ := List.exists_mem_of_ne_nil _ hskew
    obtain ⟨⟨k, hk⟩, -⟩ := mem_skewEdges.mp he
    obtain ⟨⟨i, hi, -⟩, -⟩ := owned_traceEdges hd (hs.mem_traceEdges hk).1
    exact List.ne_nil_of_mem hi
  obtain ⟨threads, hthreads, ht⟩ := hs.passThreads hd hne
  refine ⟨threads, hthreads, ?_, ?_⟩
  · intro hsame v w hfound
    by_contra hnew
    obtain ⟨h₁, h₂, hr₁, hr₂, hno, hyes⟩ := ht.differ hs hfound hnew
    obtain ⟨s₁, s₂, hrun₁, hrun₂, heq⟩ := hsame h₁ h₂ hr₁ hr₂
    obtain ⟨e, he⟩ := DiGraph.adj_iff.mp (hyes s₂ hrun₂)
    exact hno s₁ hrun₁ (DiGraph.adj_iff.mpr ⟨e, (heq _).trans he⟩)
  · intro hsettled h₁ h₂ hr₁ hr₂
    obtain ⟨s₁, hrun₁, hkept₁⟩ := ht.returns hs hd hr₁
    obtain ⟨s₂, hrun₂, hkept₂⟩ := ht.returns hs hd hr₂
    refine ⟨s₁, s₂, hrun₁, hrun₂, hs.located.sameEdges (fun c hc => ht.linkable c ?_) hrun₁ hrun₂
      hkept₁ hkept₂ fun a b => ?_⟩
    · exact (List.mem_append.mp hc).elim (fun hc => hr₁.subset_all hc) fun hc => hr₂.subset_all hc
    · rw [ht.adj_settled hsettled hr₁ hrun₁, ht.adj_settled hsettled hr₂ hrun₂]

section Sorted

variable (htime : s.skewEdges.Pairwise fun a b => a.u.timestamp ≤ b.u.timestamp)
  (hseq : s.skewEdges.Pairwise fun a b => a.u.seq ≤ b.u.seq)
include htime hseq

/-- Where the edges are in order already, what the workers find can be computed. -/
lemma found_iff_of_sorted : (v, w) ∈ searches viaTimestampFrom s.skewEdges ++
    searches viaSeqFrom s.skewEdges ↔ s.Found v w := by
  have ht : sortByKey (fun edge => edge.u.timestamp) s.skewEdges = s.skewEdges :=
    List.mergeSort_of_pairwise (htime.imp fun h => decide_eq_true h)
  have hq : sortByKey (fun edge => edge.u.seq) s.skewEdges = s.skewEdges :=
    List.mergeSort_of_pairwise (hseq.imp fun h => decide_eq_true (Int.ofNat_le.mpr h))
  rw [List.mem_append, Graph.Found, ht, hq]
  exact or_congr forwards_viaTimestampFrom.mem_searches_iff forwards_viaSeqFrom.mem_searches_iff

lemma settled_of_sorted (h : ∀ c ∈ searches viaTimestampFrom s.skewEdges ++
    searches viaSeqFrom s.skewEdges, s.graph.Adj c.1.name c.2.name) : Settled s :=
  fun v w hf => h (v, w) ((found_iff_of_sorted htime hseq).mpr hf)

end Sorted

/-- An addition that waits for its operand. -/
def dependentAdd (t src dst : ℤ) : TraceLine :=
  { lineAt t "add" "IntAlu" with insertReadyList := t + 6, src := [src], dst := dst }

/-- Four additions, each of which waits for the one before it. -/
def addsTrace : List TraceLine :=
  [dependentAdd 0 1 2, dependentAdd 10 2 3, dependentAdd 20 3 4, dependentAdd 30 4 5]

/-- The workers find the next addition, which is joined to this one already. -/
theorem inducedGraph_schedule_iff_adds :
    ∃ s threads, (constructGraph addsTrace).run .init = (.ok (), s) ∧ s.skewEdges.length = 3 ∧
      s.Found ⟨.issue, (6, 1)⟩ ⟨.issue, (16, 2)⟩ ∧ s.Found ⟨.issue, (16, 2)⟩ ⟨.issue, (26, 3)⟩ ∧
      s.passThreads = .ok threads ∧ ∀ h₁ h₂, Returns threads h₁ → Returns threads h₂ →
        ∃ s₁ s₂, (constructInducedGraph h₁).run s = (.ok (), s₁) ∧
          (constructInducedGraph h₂).run s = (.ok (), s₂) ∧ SameEdges s₁ s₂ := by
  obtain ⟨s, hrun, h⟩ := inducedGraph_schedule_iff addsTrace
  have hlength : ((constructGraph addsTrace).run .init).2.skewEdges.length = 3 := by
    decide +kernel
  have htime : ((constructGraph addsTrace).run .init).2.skewEdges.Pairwise fun a b =>
      a.u.timestamp ≤ b.u.timestamp := by decide +kernel
  have hseq : ((constructGraph addsTrace).run .init).2.skewEdges.Pairwise fun a b =>
      a.u.seq ≤ b.u.seq := by decide +kernel
  have hjoined : ∀ c ∈
        searches viaTimestampFrom ((constructGraph addsTrace).run .init).2.skewEdges ++
          searches viaSeqFrom ((constructGraph addsTrace).run .init).2.skewEdges,
      ((constructGraph addsTrace).run .init).2.graph.Adj c.1.name c.2.name := by decide +kernel
  have hfinds : [(⟨.issue, (6, 1)⟩, ⟨.issue, (16, 2)⟩), (⟨.issue, (16, 2)⟩, ⟨.issue, (26, 3)⟩)] ⊆
      searches viaTimestampFrom ((constructGraph addsTrace).run .init).2.skewEdges ++
        searches viaSeqFrom ((constructGraph addsTrace).run .init).2.skewEdges := by decide +kernel
  rw [hrun] at hlength htime hseq hjoined hfinds
  have hfound {v w : Node} (hvw : (v, w) ∈ [((⟨.issue, (6, 1)⟩, ⟨.issue, (16, 2)⟩) : Call),
      (⟨.issue, (16, 2)⟩, ⟨.issue, (26, 3)⟩)]) : s.Found v w :=
    (found_iff_of_sorted htime hseq).mp (hfinds hvw)
  obtain ⟨threads, hthreads, hiff⟩ := h (fun hnil => by simp [hnil] at hlength)
  exact ⟨s, threads, hrun, hlength, hfound (by simp), hfound (by simp), hthreads,
    hiff.mpr (settled_of_sorted htime hseq hjoined)⟩

/-- Two mispredicted branches, each followed by a load. -/
def branchesTrace : List TraceLine :=
  branchTrace ++ [lineAt 20 "beq" "IntAlu", lineAt 30 "ld" "MemRead"]

/-- The edge between the two branches is there or not, depending on whether the worker of the first
one has run. -/
theorem branches_schedule :
    ∃ s threads h₁ h₂ s₁ s₂, (constructGraph branchesTrace).run .init = (.ok (), s) ∧
      s.skewEdges ≠ [] ∧ s.passThreads = .ok threads ∧ Returns threads h₁ ∧ Returns threads h₂ ∧
      (constructInducedGraph h₁).run s = (.ok (), s₁) ∧
      (constructInducedGraph h₂).run s = (.ok (), s₂) ∧
      ¬s₁.graph.Adj "1-P" "3-P" ∧ s₂.graph.Adj "1-P" "3-P" := by
  obtain ⟨s, hrun, hs⟩ := constructGraph_returns branchesTrace
  have hskew : ((constructGraph branchesTrace).run .init).2.skewEdges =
      [⟨⟨.complete, (7, 1)⟩, ⟨.f1, (10, 2)⟩, 3, 3, .bpMiss⟩,
        ⟨⟨.complete, (27, 3)⟩, ⟨.f1, (30, 4)⟩, 3, 3, .bpMiss⟩] := by decide +kernel
  have hnew : ¬((constructGraph branchesTrace).run .init).2.graph.Adj "1-P" "3-P" := by
    decide +kernel
  rw [hrun] at hskew hnew
  have hfound : s.Found ⟨.complete, (7, 1)⟩ ⟨.complete, (27, 3)⟩ := by
    refine .inr ⟨[], ⟨⟨.complete, (7, 1)⟩, ⟨.f1, (10, 2)⟩, 3, 3, .bpMiss⟩,
      [⟨⟨.complete, (27, 3)⟩, ⟨.f1, (30, 4)⟩, 3, 3, .bpMiss⟩], ?_, .inl rfl, by decide⟩
    rw [hskew]
    exact List.mergeSort_of_pairwise (by decide)
  have hd := descending_stream branchesTrace
  obtain ⟨threads, hthreads, ht⟩ := hs.passThreads hd (by simp [branchesTrace, instructionStream])
  obtain ⟨h₁, h₂, hr₁, hr₂, hno, hyes⟩ := ht.differ hs hfound hnew
  obtain ⟨s₁, hrun₁, -⟩ := ht.returns hs hd hr₁
  obtain ⟨s₂, hrun₂, -⟩ := ht.returns hs hd hr₂
  exact ⟨s, threads, h₁, h₂, s₁, s₂, hrun, by simp [hskew], hthreads, hr₁, hr₂, hrun₁, hrun₂,
    hno s₁ hrun₁, hyes s₂ hrun₂⟩

end ArchExplorer.Core
