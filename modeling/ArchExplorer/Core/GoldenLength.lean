import ArchExplorer.Lib.Walk
import ArchExplorer.Core.Distance

/-!
# The golden length

The critical path leads from the first fetch to the last commit along edges of the graph. Since the
delay of every edge is the time between its nodes, the delays add up to the time between the two
ends, and the assertion of the report holds.
-/

namespace ArchExplorer.Core

open ArchExplorer.Lib

variable {insts : List RiscvInstruction} {first last i : RiscvInstruction} {s s' : Graph}
  {g : DiGraph String Node Edge} {n : Node} {a b : String} {path : List String} {T : Prop}

/-! ### Paths within an instruction -/

lemma Linked.isPath_fromF1 (h : Linked T insts g) (hi : i ∈ insts) (hn : n ∈ modelNodes i) :
    ∃ p, g.IsPath (nodeF1 i).name n.name p := by
  obtain ⟨l, r, hlr⟩ := List.append_of_mem hn
  have hchain := h.chained i hi
  have hhead : (modelNodes i).head? = some (nodeF1 i) := head?_modelNodes
  rw [hlr, ← List.singleton_append, ← List.append_assoc] at hchain hhead
  refine ⟨(l ++ [n]).map Node.name, ?_, ?_, ?_⟩
  · rw [List.head?_append_of_ne_nil _ (by simp)] at hhead
    rw [List.head?_map, hhead]
    rfl
  · rw [List.getLast?_map, List.getLast?_concat]
    rfl
  · exact (List.isChain_map _).mpr hchain.left_of_append

lemma Linked.isPath_toCommit (h : Linked T insts g) (hi : i ∈ insts) (hn : n ∈ modelNodes i) :
    ∃ p, g.IsPath n.name (nodeCommit i).name p := by
  obtain ⟨l, r, hlr⟩ := List.append_of_mem hn
  have hchain := h.chained i hi
  have hlast : (modelNodes i).getLast? = some (nodeCommit i) := getLast?_modelNodes
  rw [hlr] at hchain hlast
  refine ⟨(n :: r).map Node.name, rfl, ?_, ?_⟩
  · rw [List.getLast?_append_of_ne_nil _ (List.cons_ne_nil _ _)] at hlast
    rw [List.getLast?_map, hlast]
    rfl
  · exact (List.isChain_map _).mpr hchain.right_of_append

/-- A name of the graph is the name of a node of an instruction. -/
lemma Modelled.getNodeViaName (h : Modelled T insts s) (ha : a ∈ s.graph.nodes.keys) :
    ∃ i ∈ insts, ∃ n ∈ modelNodes i, n.name = a ∧ s.getNodeViaName a = .ok n := by
  obtain ⟨d, hd⟩ := Dict.mem_keys_iff.mp ha
  obtain ⟨i, hi, n, hn, rfl, rfl⟩ := h.located.owned a d hd
  refine ⟨i, hi, n, hn, rfl, ?_⟩
  rw [Graph.getNodeViaName, h.located.node? hi hn]

lemma seq_le_of_head? (hd : Descending insts) (hlast : insts.head? = some last) (hi : i ∈ insts) :
    i.seq ≤ last.seq := by
  obtain ⟨rest, rfl⟩ : ∃ rest, insts = last :: rest := by
    cases insts with
    | nil => simp at hlast
    | cons x rest => exact ⟨rest, by simpa using hlast⟩
  rcases List.mem_cons.mp hi with rfl | hi
  · exact le_rfl
  · exact ((List.pairwise_cons.mp hd).1 i hi).le

lemma le_seq_of_getLast? (hd : Descending insts) (hfirst : insts.getLast? = some first)
    (hi : i ∈ insts) : first.seq ≤ i.seq := by
  obtain ⟨rest, rfl⟩ := List.getLast?_eq_some_iff.mp hfirst
  rcases List.mem_append.mp hi with hi | hi
  · exact ((List.pairwise_append.mp hd).2.2 i hi first (by simp)).le
  · rw [List.mem_singleton.mp hi]

/-- Nodes of different instructions are different. -/
lemma eq_false_of_seq {u v : Node} (h : u.seq < v.seq) : u.eq v = false :=
  decide_eq_false fun heq => h.ne heq.1

/-! ### The ends of the path -/

lemma foldl_cons_eq (l acc : List String) :
    l.foldl (fun path n => n :: path) acc = l.reverse ++ acc := by
  induction l generalizing acc with
  | nil => rfl
  | cons x l ih => rw [List.foldl_cons, ih, List.reverse_cons, List.append_assoc]; rfl

lemma pathHead_returns (nx : Networkx) (h : Modelled T insts s) (hd : Descending insts)
    (hfirst : insts.getLast? = some first) (ha : a ∈ s.graph.nodes.keys)
    (hpath : s.graph.IsPath a b path) :
    ∃ path' s', (pathHead nx a path).run s = (.ok path', s') ∧ Grown T insts s s' ∧
      s'.graph.IsPath (nodeF1 first).name b path' := by
  have hfirstMem : first ∈ insts := List.mem_of_getLast? hfirst
  obtain ⟨rest, rfl⟩ := hpath.exists_cons
  rw [pathHead, Exec.run_bind_ok (Exec.run_get s), h.sourceNode hfirst,
    Exec.run_bind_ok (Exec.run_ofExcept _ s)]
  cases hsp : nx.shortestPath s.graph (nodeF1 first).name a with
  | some p =>
    have hp := (nx.shortestPath_some hsp).toIsPath
    obtain ⟨q, rfl⟩ := hp.exists_concat
    refine ⟨_, s, rfl, .refl h, ?_⟩
    rw [foldl_cons_eq, List.reverse_append, List.reverse_singleton, List.singleton_append,
      List.tail_cons, List.reverse_reverse]
    exact hp.trans hpath
  | none =>
    obtain ⟨i, hi, n, hn, rfl, hname⟩ := h.getNodeViaName ha
    have hlt : first.seq < i.seq := by
      refine lt_of_le_of_ne (le_seq_of_getLast? hd hfirst hi) fun heq => ?_
      obtain rfl := h.located.unique first hfirstMem i hi heq
      -- within the first instruction there is a path
      obtain ⟨p, hp⟩ := h.linked.isPath_fromF1 hi hn
      exact nx.shortestPath_none (Dict.mem_keys_of_get? (h.located.found first hi _ nodeF1_mem)) ha
        hsp p hp
    have hseq : (nodeF1 first).seq < n.seq := by rwa [seq_of_mem hn]
    have hgrown := h.join ⟨first, hfirstMem, nodeF1_mem⟩ ⟨i, hi, hn⟩ (Node.rank_lt_of_seq hseq)
    refine ⟨(nodeF1 first).name :: n.name :: rest, _, ?_, hgrown, ?_⟩
    · rw [hname]
      change (addVirtualEdge (nodeF1 first) n >>= _).run s = _
      rw [Exec.run_bind_ok (run_addVirtualEdge _ _)]
      rfl
    · have hedge := DiGraph.isPath_edge (adj_join (s := s) (eq_false_of_seq hseq))
      exact DiGraph.IsPath.trans (p := [(nodeF1 first).name]) hedge (hpath.mono hgrown.adj)

lemma pathTail_returns (nx : Networkx) (h : Modelled T insts s) (hd : Descending insts)
    (hlast : insts.head? = some last) (hb : b ∈ s.graph.nodes.keys)
    (hpath : s.graph.IsPath a b path) :
    ∃ path' s', (pathTail nx b path).run s = (.ok path', s') ∧ Grown T insts s s' ∧
      s'.graph.IsPath a (nodeCommit last).name path' := by
  have hlastMem : last ∈ insts := List.mem_of_mem_head? hlast
  obtain ⟨rest, rfl⟩ := hpath.exists_concat
  rw [pathTail, Exec.run_bind_ok (Exec.run_get s), h.sinkNode hlast,
    Exec.run_bind_ok (Exec.run_ofExcept _ s)]
  cases hsp : nx.shortestPath s.graph b (nodeCommit last).name with
  | some p =>
    have hp := (nx.shortestPath_some hsp).toIsPath
    obtain ⟨q, rfl⟩ := hp.exists_cons
    refine ⟨_, s, rfl, .refl h, ?_⟩
    rw [List.tail_cons, List.append_assoc, List.singleton_append]
    exact hpath.trans hp
  | none =>
    obtain ⟨i, hi, n, hn, rfl, hname⟩ := h.getNodeViaName hb
    have hlt : i.seq < last.seq := by
      refine lt_of_le_of_ne (seq_le_of_head? hd hlast hi) fun heq => ?_
      obtain rfl := h.located.unique i hi last hlastMem heq
      obtain ⟨p, hp⟩ := h.linked.isPath_toCommit hi hn
      exact nx.shortestPath_none hb
        (Dict.mem_keys_of_get? (h.located.found i hi _ nodeCommit_mem)) hsp p hp
    have hseq : n.seq < (nodeCommit last).seq := by rwa [seq_of_mem hn]
    have hgrown := h.join ⟨i, hi, hn⟩ ⟨last, hlastMem, nodeCommit_mem⟩ (Node.rank_lt_of_seq hseq)
    refine ⟨(rest ++ [n.name]) ++ [(nodeCommit last).name], _, ?_, hgrown, ?_⟩
    · rw [hname]
      change (addVirtualEdge n (nodeCommit last) >>= _).run s = _
      rw [Exec.run_bind_ok (run_addVirtualEdge _ _)]
      rfl
    · have hedge := DiGraph.isPath_edge (adj_join (s := s) (eq_false_of_seq hseq))
      rw [List.append_assoc, List.singleton_append]
      exact (hpath.mono hgrown.adj).trans hedge

lemma longestPathImpl_returns (nx : Networkx) (h : Modelled T insts s) (hp : Paced s.graph)
    (hd : Descending insts) (hfirst : insts.getLast? = some first)
    (hlast : insts.head? = some last)
    (hpos : ∃ k e, s.graph.edges.get? k = some e ∧ 0 < e.cost) :
    ∃ path s', (longestPathImpl nx).run s = (.ok path, s') ∧ Grown T insts s s' ∧
      s'.graph.IsPath (nodeF1 first).name (nodeCommit last).name path := by
  have hfirstKey : (nodeF1 first).name ∈ s.graph.nodes.keys :=
    Dict.mem_keys_of_get? (h.located.found first (List.mem_of_getLast? hfirst) _ nodeF1_mem)
  obtain ⟨core, hcore, hextracted⟩ :=
    dagLongestPath_returns nx h hp (List.ne_nil_of_mem hfirstKey)
  obtain ⟨hne, hchain, hnodes⟩ : CorePath s.graph core := by
    cases hextracted with
    | core _ hcore => exact hcore
    | free hfree   =>
      obtain ⟨k, e, he, hcost⟩ := hpos
      exact absurd hcost (not_lt.mpr (hfree k e he))
  obtain ⟨a, ha⟩ : ∃ a, core.head? = some a := ⟨_, List.head?_eq_some_head hne⟩
  obtain ⟨b, hb⟩ : ∃ b, core.getLast? = some b := ⟨_, List.getLast?_eq_getLast_of_ne_nil hne⟩
  obtain ⟨path₁, s₁, hrun₁, hgrown₁, hpath₁⟩ := pathHead_returns nx h hd hfirst
    (hnodes a (List.mem_of_mem_head? ha)) ⟨ha, hb, hchain⟩
  have hbmem : b ∈ s₁.graph.nodes.keys := by
    obtain ⟨i, hi, n, hn, rfl, -⟩ := h.getNodeViaName (hnodes b (List.mem_of_getLast? hb))
    exact Dict.mem_keys_of_get? (hgrown₁.modelled.located.found i hi n hn)
  obtain ⟨path₂, s₂, hrun₂, hgrown₂, hpath₂⟩ := pathTail_returns nx hgrown₁.modelled hd hlast
    hbmem hpath₁
  refine ⟨path₂, s₂, ?_, hgrown₁.trans hgrown₂, hpath₂⟩
  rw [longestPathImpl, Exec.run_bind_ok (Exec.run_get s), hcore,
    Exec.run_bind_ok (Exec.run_ofExcept _ s), ha]
  change (pathHead nx a core >>= _).run s = _
  rw [Exec.run_bind_ok hrun₁, hpath₁.last]
  exact hrun₂

/-! ### The sum of the delays -/

/-- The delay of the edge between two nodes. -/
def edgeDelay (g : DiGraph String Node Edge) (u v : String) : ℤ :=
  (g.edges.get? (u, v)).elim 0 Edge.delay

/-- The time stamp of the node with a name. -/
def timestampOf (g : DiGraph String Node Edge) (name : String) : ℤ :=
  ((g.nodes.get? name).join).elim 0 Node.timestamp

lemma Located.timestampOf_name (h : Located insts g) (hn : n.In insts) :
    timestampOf g n.name = n.timestamp := by
  obtain ⟨i, hi, hmem⟩ := hn
  rw [timestampOf, h.found i hi n hmem]
  rfl

lemma Modelled.edgeDelay_eq (h : Modelled True insts s) (hab : s.graph.Adj a b) :
    edgeDelay s.graph a b = timestampOf s.graph b - timestampOf s.graph a := by
  obtain ⟨e, he, rfl, rfl, ⟨hu, hv⟩, hok⟩ := h.linked.exists_edge hab
  rw [h.located.timestampOf_name hu, h.located.timestampOf_name hv, edgeDelay, he]
  exact hok.delay trivial

/-- The delays along a path add up to the time between its ends. -/
lemma Modelled.walkSum_eq (h : Modelled True insts s) (hpath : s.graph.IsPath a b path) :
    walkSum (edgeDelay s.graph) path = timestampOf s.graph b - timestampOf s.graph a := by
  obtain ⟨q, rfl⟩ := hpath.exists_cons
  exact walkSum_telescope (hpath.chain.imp fun _ _ hxy => h.edgeDelay_eq hxy) hpath.last

/-- Every bottleneck has a counter. -/
def Counted (d : Dict String ℤ) : Prop := ∀ btnk : Bottleneck, btnk.name ∈ d.keys

lemma counted_constructBottleneck : Counted constructBottleneck := by
  intro btnk
  cases btnk <;> decide

lemma accumulate_returns (s : Graph) (path : List String) (hb : Counted s.bottleneck)
    (hchain : path.IsChain s.graph.Adj) :
    ∃ d, (accumulate path).run s = (.ok (), { s with bottleneck := d }) ∧
      d.values.sum = s.bottleneck.values.sum + walkSum (edgeDelay s.graph) path := by
  match path with
  | []            => exact ⟨s.bottleneck, rfl, by simp [walkSum]⟩
  | [_]           => exact ⟨s.bottleneck, rfl, by simp [walkSum]⟩
  | u :: v :: rest =>
    rw [List.isChain_cons_cons] at hchain
    obtain ⟨e, he⟩ := DiGraph.adj_iff.mp hchain.1
    obtain ⟨c, hc⟩ := Dict.mem_keys_iff.mp (hb e.bottleneck)
    have hedge : s.getEdge u v = .ok e := by rw [Graph.getEdge, he]
    -- one step charges the delay of the first edge
    let s₁ : Graph := { s with bottleneck := s.bottleneck.set e.bottleneck.name (c + e.delay) }
    obtain ⟨d, hrun, hsum⟩ := accumulate_returns s₁ (v :: rest)
      (fun btnk => Dict.mem_keys_set.mpr (.inr (hb btnk))) hchain.2
    refine ⟨d, ?_, ?_⟩
    · rw [accumulate, Exec.run_bind_ok (Exec.run_get s), hedge,
        Exec.run_bind_ok (Exec.run_ofExcept _ s), hc]
      change (Exec.modify _ >>= _).run s = _
      rw [Exec.run_bind_ok (Exec.run_modify _ s)]
      exact hrun
    · have hfirst : edgeDelay s.graph u v = e.delay := by rw [edgeDelay, he]; rfl
      have hset : s₁.bottleneck.values.sum = s.bottleneck.values.sum - c + (c + e.delay) :=
        Dict.sum_values_set hc _
      rw [hsum, hset, walkSum_cons_cons, hfirst]
      ring

lemma reportEdges_returns (path : List String) (hchain : path.IsChain s.graph.Adj) :
    ∃ text, reportEdges s path = .ok text := by
  match path with
  | []            => exact ⟨_, rfl⟩
  | [_]           => exact ⟨_, rfl⟩
  | u :: v :: rest =>
    rw [List.isChain_cons_cons] at hchain
    obtain ⟨e, he⟩ := DiGraph.adj_iff.mp hchain.1
    obtain ⟨text, htext⟩ := reportEdges_returns (v :: rest) hchain.2
    have hedge : s.getEdge u v = .ok e := by rw [Graph.getEdge, he]
    rw [reportEdges, hedge, htext]
    exact ⟨_, rfl⟩

/-! ### The report -/

/-- A path along edges of the graph is reported if its length is the golden length. -/
lemma generateReport_returns {source sink : Node} (hcritical : s.criticalPath = some path)
    (hsource : s.sourceNode = .ok source) (hsink : s.sinkNode = .ok sink)
    (hgolden : sink.timestamp - source.timestamp = s.bottleneck.values.sum)
    (hchain : path.IsChain s.graph.Adj) : ∃ text, generateReport s = .ok (some text) := by
  obtain ⟨text, htext⟩ := reportEdges_returns path hchain
  rw [generateReport, hcritical, hsink, hsource]
  change ∃ text, (if sink.timestamp - source.timestamp ≠ s.bottleneck.values.sum then _
    else _) = Except.ok (some text)
  rw [if_neg (not_not.mpr hgolden), htext]
  exact ⟨_, rfl⟩

/-- The analysis of a graph whose costs are not all zero: the critical path leads from the first
fetch to the last commit, and the counters add up to the time between them. -/
lemma longestPath_returns (nx : Networkx) (h : Modelled True insts s) (hp : Paced s.graph)
    (hd : Descending insts) (hfirst : insts.getLast? = some first)
    (hlast : insts.head? = some last) (hzero : s.bottleneck = constructBottleneck)
    (hpos : ∃ k e, s.graph.edges.get? k = some e ∧ 0 < e.cost) :
    ∃ path s₁ s₂, (longestPathImpl nx).run s = (.ok path, s₁) ∧
      s₁.graph.IsPath (nodeF1 first).name (nodeCommit last).name path ∧
      (longestPath nx).run s = (.ok (), s₂) ∧
      (s₂.sourceNode = .ok (nodeF1 first) ∧ s₂.sinkNode = .ok (nodeCommit last)) ∧
      s₂.bottleneck.values.sum = (nodeCommit last).timestamp - (nodeF1 first).timestamp ∧
      ∃ text, generateReport s₂ = .ok (some text) := by
  obtain ⟨path, s₁, hrun, hgrown, hpath⟩ :=
    longestPathImpl_returns nx h hp hd hfirst hlast hpos
  have hm := hgrown.modelled
  have hb₁ : s₁.bottleneck = constructBottleneck := hgrown.bottleneck_eq.trans hzero
  obtain ⟨d, haccumulate, hsum⟩ := accumulate_returns { s₁ with criticalPath := some path } path
    (hb₁ ▸ counted_constructBottleneck) hpath.chain
  have hsource : (nodeF1 first).In insts := ⟨first, List.mem_of_getLast? hfirst, nodeF1_mem⟩
  have hsink : (nodeCommit last).In insts := ⟨last, List.mem_of_mem_head? hlast, nodeCommit_mem⟩
  have hlength : d.values.sum = (nodeCommit last).timestamp - (nodeF1 first).timestamp := by
    have hinit : constructBottleneck.values.sum = 0 := by decide
    rw [hsum, hm.walkSum_eq hpath, hm.located.timestampOf_name hsource,
      hm.located.timestampOf_name hsink, hb₁, hinit, zero_add]
  let s₂ : Graph := { s₁ with criticalPath := some path, bottleneck := d }
  have hm₂ : Modelled True insts s₂ := ⟨hm.located, hm.linked, hm.insts_eq⟩
  have hends := And.intro (hm₂.sourceNode hfirst) (hm₂.sinkNode hlast)
  refine ⟨path, s₁, s₂, hrun, hpath, ?_, hends, hlength, ?_⟩
  · rw [longestPath, Exec.run_bind_ok hrun, Exec.run_bind_ok (Exec.run_modify _ s₁)]
    exact haccumulate
  · exact generateReport_returns rfl hends.1 hends.2 hlength.symm hpath.chain

/-- The first instruction has number one. -/
lemma getLast?_stream {trace : List TraceLine} (h : (instructionStream trace).reverse ≠ []) :
    ∃ first, (instructionStream trace).reverse.getLast? = some first ∧ first.seq = 1 := by
  cases trace with
  | nil => exact absurd rfl h
  | cons line trace => exact ⟨⟨line, 1⟩, by simp [instructionStream], rfl⟩

/-- The number of the last instruction is the length of the trace. -/
lemma head?_stream {trace : List TraceLine} (h : (instructionStream trace).reverse ≠ []) :
    ∃ last, (instructionStream trace).reverse.head? = some last ∧ last.seq = trace.length := by
  cases trace using List.reverseRecOn with
  | nil => exact absurd rfl h
  | append_singleton trace line =>
    refine ⟨⟨line, 1 + trace.length⟩, ?_, ?_⟩
    · simp [instructionStream, List.zipIdx_append]
    · simp [Nat.add_comm]

/-- Let the memory instructions of a trace complete with their access, and let no memory instruction
be a control instruction. If some dependence between instructions has a positive cost then, whatever
virtual edges the threads have added, the critical path leads from the first fetch to the last
commit along edges of the graph, its delays add up to the time between the two, and the report is
written. -/
theorem report_goldenLength (nx : Networkx) (trace : List TraceLine)
    (hmem : ∀ line ∈ trace, line.isMem = true → line.complete = line.memory)
    (hcontrol : ∀ line ∈ trace, line.isControl = true → line.isMem = false) :
    ∃ s, (constructGraph trace).run .init = (.ok (), s) ∧
      ((∃ e ∈ s.skewEdges, 0 < e.cost) →
        ∃ threads, s.virtualEdgeCalls = .ok threads ∧ ∀ calls ⊆ threads,
          ∃ source sink path s₁ s₂ s₃,
            (s.sourceNode = .ok source ∧ source.name = uniqueName 1 .f1) ∧
            (s.sinkNode = .ok sink ∧ sink.name = uniqueName trace.length .commit) ∧
            (constructInducedGraph calls).run s = (.ok (), s₁) ∧
            (longestPathImpl nx).run s₁ = (.ok path, s₂) ∧
            s₂.graph.IsPath source.name sink.name path ∧
            (constructCriticalPathV2 nx calls).run s = (.ok (), s₃) ∧
            s₃.bottleneck.values.sum = sink.timestamp - source.timestamp ∧
            ∃ text, generateReport s₃ = .ok (some text)) := by
  have hl : ∀ inst ∈ (instructionStream trace).reverse, inst.Legal := fun inst h =>
    legal_of_mem_stream (fun line h => ⟨hmem line h, hcontrol line h⟩) (List.mem_reverse.mp h)
  obtain ⟨s, hrun, hs⟩ := constructGraph_returns trace
  refine ⟨s, hrun, ?_⟩
  rintro ⟨e, he, hcost⟩
  obtain ⟨⟨k, hk⟩, -⟩ := mem_skewEdges.mp he
  have hd := descending_stream trace
  have hm := hs.modelled (T := True) (fun _ => hl) hd
  have hne : (instructionStream trace).reverse ≠ [] := by
    intro hnil
    have hmemE := (hs.mem_traceEdges hk).1
    rw [hnil] at hmemE
    exact absurd hmemE (by simp [traceEdges])
  obtain ⟨threads, hthreads, hlinkable⟩ := hs.virtualEdgeCalls hd hne
  refine ⟨threads, hthreads, fun calls hcalls => ?_⟩
  obtain ⟨s₁, hrun₁, hgrown, hpaced⟩ := constructInducedGraph_returns
    (fun c hc => hlinkable c (hcalls hc)) hm (hs.paced hd)
  obtain ⟨first, hfirst, hfirstSeq⟩ := getLast?_stream hne
  obtain ⟨last, hlast, hlastSeq⟩ := head?_stream hne
  obtain ⟨path, s₂, s₃, hrun₂, hpath, hrun₃, -, hsum, hreport⟩ := longestPath_returns nx
    hgrown.modelled hpaced hd hfirst hlast (hgrown.bottleneck_eq.trans hs.bottleneck_eq)
    ⟨k, e, hgrown.kept hk, hcost⟩
  refine ⟨nodeF1 first, nodeCommit last, path, s₁, s₂, s₃, ⟨hm.sourceNode hfirst, ?_⟩,
    ⟨hm.sinkNode hlast, ?_⟩, hrun₁, hrun₂, hpath, ?_, hsum, hreport⟩
  · rw [Node.name, ← hfirstSeq]
    rfl
  · rw [Node.name, ← hlastSeq]
    rfl
  · rw [constructCriticalPathV2, Exec.run_bind_ok hrun₁]
    exact hrun₃

open Classical in
/-- An implementation of the graph algorithms by choice. -/
noncomputable def Networkx.choice : Networkx where
  topologicalSort g := if h : ∃ l, g.IsTopologicalOrder l then some h.choose else none
  shortestPath g u v := if h : ∃ p, g.IsShortestPath u v p then some h.choose else none
  topologicalSort_spec := fun g hg => ⟨_, dif_pos hg.exists_order, hg.exists_order.choose_spec⟩
  shortestPath_some := by
    intro g u v p hp
    split_ifs at hp with h
    obtain rfl : h.choose = p := by simpa using hp
    exact h.choose_spec
  shortestPath_none := by
    intro g u v _ _ hnone p hp
    obtain ⟨q, hq⟩ := hp.exists_shortest
    rw [dif_pos ⟨q, hq⟩] at hnone
    exact Option.some_ne_none _ hnone

/-- An instruction that takes one cycle for each stage from `t` on. -/
def lineAt (t : ℤ) (inst instType : String) : TraceLine where
  fetchCacheLine := t
  processCacheCompletion := t + 2
  fetch := t + 2
  decodeSortInsts := t + 3
  decode := t + 3
  renameSortInsts := t + 4
  blockFromRob := 0
  blockFromRf := 0
  blockFromIq := 0
  blockFromLq := 0
  blockFromSq := 0
  rename := t + 4
  dispatch := t + 5
  insertReadyList := t + 5
  issue := t + 6
  memory := t + 7
  complete := t + 7
  completeMemory := t + 8
  commitHead := t + 8
  commit := t + 9
  inst := inst
  instType := instType
  rob := "0"
  lq := "0"
  sq := "0"
  iq := "0"
  fu := "0"
  src := [-1]
  dst := -1

/-- A mispredicted branch and a load. -/
def branchTrace : List TraceLine := [lineAt 0 "beq" "IntAlu", lineAt 10 "ld" "MemRead"]

theorem report_goldenLength_branch :
    ∃ s s₃ threads, (constructGraph branchTrace).run .init = (.ok (), s) ∧
      s.virtualEdgeCalls = .ok threads ∧
      (constructCriticalPathV2 .choice threads).run s = (.ok (), s₃) ∧
      ∃ source sink, s.sourceNode = .ok source ∧ s.sinkNode = .ok sink ∧
        s₃.bottleneck.values.sum = sink.timestamp - source.timestamp := by
  obtain ⟨s, hrun, h⟩ := report_goldenLength .choice branchTrace (by decide)
    (by decide +kernel)
  have hpos : ∃ e ∈ ((constructGraph branchTrace).run .init).2.skewEdges, 0 < e.cost := by
    decide +kernel
  rw [hrun] at hpos
  obtain ⟨threads, hthreads, hall⟩ := h hpos
  obtain ⟨source, sink, _, _, _, s₃, hsource, hsink, _, _, _, hrun₃, hsum, _⟩ :=
    hall threads (List.Subset.refl _)
  exact ⟨s, s₃, threads, hrun, hthreads, hrun₃, source, sink, hsource.1, hsink.1, hsum⟩

end ArchExplorer.Core
