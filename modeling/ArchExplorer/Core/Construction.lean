import ArchExplorer.Core.Chain

/-!
# The graph after the construction

`traceEdges` lists the edges that are added for a trace as a function of the instructions alone. The
construction cannot fail and adds exactly these edges.
-/

namespace ArchExplorer.Core

open ArchExplorer.Lib

variable {insts past : List RiscvInstruction} {inst i j prev : RiscvInstruction} {s : Graph}
  {n : Node} {g : DiGraph String Node Edge}

/-! ### The edges of a trace -/

/-- The edge from a mispredicted branch to the next fetch. -/
def missBpEdges (past : List RiscvInstruction) (inst : RiscvInstruction) : List Edge :=
  match past.head? with
  | some prev =>
    if prev.isControl ∧ prev.complete < inst.fetchCacheLine then
      [skewEdge (completedNode prev) (nodeF1 inst) (inst.fetchCacheLine - prev.complete) .bpMiss]
    else []
  | none      => []

/-- The edge between the renaming stages of two instructions. -/
def renameEdge (bottleneck : Bottleneck) (prev inst : RiscvInstruction) : Edge :=
  skewEdge (nodeRename prev) (nodeRename inst) (inst.rename - prev.rename) bottleneck

/-- The edge between the issue stages of two instructions. -/
def issueEdge (bottleneck : Bottleneck) (prev inst : RiscvInstruction) : Edge :=
  skewEdge (issuedNode prev) (issuedNode inst) (inst.issue - prev.issue) bottleneck

/-- The edge from the newest instruction that meets a condition. -/
def resourceEdges (bottleneck : Bottleneck) (same : RiscvInstruction → Bool)
    (past : List RiscvInstruction) (inst : RiscvInstruction) : List Edge :=
  match past.find? same with
  | some prev => [renameEdge bottleneck prev inst]
  | none      => []

def robEdges (past : List RiscvInstruction) (inst : RiscvInstruction) : List Edge :=
  if inst.blockFromRob ≠ 0 then resourceEdges .rob (fun prev => prev.rob = inst.rob) past inst
  else []

def lqEdges (past : List RiscvInstruction) (inst : RiscvInstruction) : List Edge :=
  if inst.blockFromLq ≠ 0 ∧ inst.isLoad then
    resourceEdges .lq (fun prev => prev.lq = inst.lq) past inst
  else []

def sqEdges (past : List RiscvInstruction) (inst : RiscvInstruction) : List Edge :=
  if inst.blockFromSq ≠ 0 ∧ inst.isStore then
    resourceEdges .sq (fun prev => prev.sq = inst.sq) past inst
  else []

/-- Two instructions write the same register, or the older one reads what the newer one writes. -/
def rfConflict (inst prev : RiscvInstruction) : Bool :=
  prev.src.contains inst.dst || wrwDep inst prev

def rfEdges (past : List RiscvInstruction) (inst : RiscvInstruction) : List Edge :=
  if inst.blockFromRf ≠ 0 then
    match rfBottleneck inst, past.find? (rfConflict inst) with
    | some bottleneck, some prev => [renameEdge bottleneck prev inst]
    | _,               _         => []
  else []

def iqEdges (past : List RiscvInstruction) (inst : RiscvInstruction) : List Edge :=
  if inst.blockFromIq ≠ 0 then resourceEdges .iq (fun prev => inst.iq = prev.iq) past inst
  else []

/-- `prev` occupies the functional unit when `inst` could be issued. -/
def fuConflict (inst prev : RiscvInstruction) : Bool :=
  inst.fu = prev.fu ∧ prev.issue < inst.issue ∧
    (inst.isLoad ∧ inst.issue ≤ prev.completeMemory ∨ inst.issue ≤ prev.complete)

def fuEdges (past : List RiscvInstruction) (inst : RiscvInstruction) : List Edge :=
  if inst.insertReadyList < inst.issue then
    match fuBottleneck inst, past.find? (fuConflict inst) with
    | some bottleneck, some prev => [issueEdge bottleneck prev inst]
    | _,               _         => []
  else []

/-- The bottleneck of an edge from a producer. -/
def rawBottleneck (inst dependency : RiscvInstruction) : Bottleneck :=
  if dependency.isLoad then dcacheBottleneck (inst.issue - dependency.issue) else .raw

def rawEdges (past : List RiscvInstruction) (inst : RiscvInstruction) : List Edge :=
  if inst.dispatch < inst.insertReadyList then
    match rawOuter inst rawConst past (past.length + 1) 0 0 none with
    | .ok (some dependency) => [issueEdge (rawBottleneck inst dependency) dependency inst]
    | _                     => []
  else []

/-- The edges that lead from earlier instructions to `inst`. -/
def interactionEdges (past : List RiscvInstruction) (inst : RiscvInstruction) : List Edge :=
  missBpEdges past inst ++ robEdges past inst ++ lqEdges past inst ++ sqEdges past inst ++
    rfEdges past inst ++ iqEdges past inst ++ fuEdges past inst ++ rawEdges past inst

/-- The edges of a trace whose newest instruction comes first, in the order in which they are
added. -/
def traceEdges : List RiscvInstruction → List Edge
  | []           => []
  | inst :: past => traceEdges past ++ modelEdges inst ++ interactionEdges past inst

/-! ### Looking nodes up -/

/-- The nodes of the graph are those of the instructions, each under its name. -/
structure Located (insts : List RiscvInstruction) (g : DiGraph String Node Edge) : Prop where
  unique : ∀ i ∈ insts, ∀ j ∈ insts, i.seq = j.seq → i = j
  found : ∀ i ∈ insts, ∀ n ∈ modelNodes i, g.nodes.get? n.name = some (some n)
  owned : ∀ name d, g.nodes.get? name = some d →
    ∃ i ∈ insts, ∃ n ∈ modelNodes i, n.name = name ∧ d = some n

lemma Located.congr {g' : DiGraph String Node Edge} (h : Located insts g)
    (hn : g'.nodes = g.nodes) : Located insts g' where
  unique := h.unique
  found := hn ▸ h.found
  owned := hn ▸ h.owned

lemma Located.node? (h : Located insts s.graph) (hi : i ∈ insts) (hn : n ∈ modelNodes i) :
    s.node? n.name = some n := by
  rw [Graph.node?, h.found i hi n hn]
  rfl

/-- The node of a stage is not found if the instruction does not have this stage. -/
lemma Located.node?_eq_none (h : Located insts s.graph) (hi : i ∈ insts) {stage : PipelineStage}
    (hstage : ∀ n ∈ modelNodes i, n.stage ≠ stage) : s.node? (uniqueName i.seq stage) = none := by
  rw [Graph.node?]
  cases hget : s.graph.nodes.get? (uniqueName i.seq stage) with
  | none   => rfl
  | some d =>
    obtain ⟨j, hj, n, hn, hname, rfl⟩ := h.owned _ _ hget
    obtain ⟨hseq, hst⟩ := uniqueName_inj hname
    rw [seq_of_mem hn] at hseq
    obtain rfl := h.unique j hj i hi hseq
    exact absurd hst (hstage n hn)

/-- A stage that is never merged is found under its own name. -/
lemma Located.getNodeViaInst (h : Located insts s.graph) (hi : i ∈ insts)
    (stage : PipelineStage) (hn : n ∈ modelNodes i) (hstage : n.stage = stage) :
    s.getNodeViaInst i stage = .ok n := by
  have hname : uniqueNameViaInst i stage = n.name := by
    rw [uniqueNameViaInst, Node.name, seq_of_mem hn, hstage]
  rw [Graph.getNodeViaInst, hname, h.node? hi hn]

lemma Located.getNodeViaInst_issue (h : Located insts s.graph) (hi : i ∈ insts) :
    s.getNodeViaInst i .issue = .ok (issuedNode i) := by
  have hmem : issuedNode i ∈ modelNodes i := issuedNode_mem
  by_cases hissue : i.dispatch = i.issue
  · rw [issuedNode, if_pos hissue] at hmem ⊢
    have hnone : s.node? (uniqueNameViaInst i .issue) = none :=
      h.node?_eq_none hi fun n hn hst => (mem_modelNodes hn).2.1 hst hissue
    rw [Graph.getNodeViaInst, hnone]
    have hname : uniqueNameViaInst i (Graph.mergedStage .issue) = (nodeDI i).name := rfl
    simp only [Graph.getNodeViaName, hname, h.node? hi hmem]
  · rw [issuedNode, if_neg hissue] at hmem ⊢
    exact h.getNodeViaInst hi .issue hmem rfl

lemma Located.getNodeViaInst_complete (h : Located insts s.graph) (hi : i ∈ insts) :
    s.getNodeViaInst i .complete = .ok (completedNode i) := by
  have hmem : completedNode i ∈ modelNodes i := completedNode_mem
  by_cases hmp : (completedNode i).stage = .mp
  · have hnone : s.node? (uniqueNameViaInst i .complete) = none :=
      h.node?_eq_none hi fun n hn hst => (mem_modelNodes hn).2.2 hst hmp
    rw [Graph.getNodeViaInst, hnone]
    have hname : uniqueNameViaInst i (Graph.mergedStage .complete) = (completedNode i).name := by
      rw [Node.name, hmp, seq_of_mem hmem]
      rfl
    simp only [Graph.getNodeViaName, hname, h.node? hi hmem]
  · exact h.getNodeViaInst hi .complete hmem (completedNode_stage.resolve_left hmp)

/-! ### Adding edges -/

/-- The graph with the listed edges added. -/
def Graph.connect (s : Graph) (es : List Edge) : Graph :=
  { s with graph := es.foldl (fun g e => g.addEdge e.u.name e.v.name e) s.graph }

@[simp] lemma Graph.connect_insts (s : Graph) (es : List Edge) : (s.connect es).insts = s.insts :=
  rfl

lemma Graph.connect_append (s : Graph) (es es' : List Edge) :
    s.connect (es ++ es') = (s.connect es).connect es' := by
  simp only [Graph.connect, List.foldl_append]

lemma run_addEdges (es : List Edge) : (addEdges es).run s = (.ok (), s.connect es) := by
  induction es generalizing s with
  | nil => rfl
  | cons e es ih => exact ih

/-- The nodes of an edge belong to instructions. -/
def Edge.Owned (insts : List RiscvInstruction) (e : Edge) : Prop :=
  (∃ i ∈ insts, e.u ∈ modelNodes i) ∧ ∃ j ∈ insts, e.v ∈ modelNodes j

/-- Edges between nodes of the instructions do not add nodes. -/
lemma Located.nodes_connect (h : Located insts s.graph) {es : List Edge}
    (hes : ∀ e ∈ es, e.Owned insts) : (s.connect es).graph.nodes = s.graph.nodes := by
  induction es generalizing s with
  | nil => rfl
  | cons e es ih =>
    obtain ⟨⟨⟨i, hi, hu⟩, j, hj, hv⟩, hes⟩ := List.forall_mem_cons.mp hes
    have hstep : (s.connect [e]).graph.nodes = s.graph.nodes := by
      have hmu := DiGraph.mention_of_mem (h.found i hi e.u hu)
      have hmv := DiGraph.mention_of_mem (h.found j hj e.v hv)
      simp only [Graph.connect, List.foldl_cons, List.foldl_nil, DiGraph.addEdge, hmu, hmv]
    have := ih (s := s.connect [e]) (h.congr hstep) hes
    rwa [← Graph.connect_append, hstep] at this

lemma Located.connect (h : Located insts s.graph) {es : List Edge}
    (hes : ∀ e ∈ es, e.Owned insts) : Located insts (s.connect es).graph :=
  h.congr (h.nodes_connect hes)

/-! ### The dependences of an instruction -/

lemma run_getNodeViaInst {stage : PipelineStage} (h : s.getNodeViaInst inst stage = .ok n)
    {α : Type} (f : Node → GraphM α) : (getNodeViaInst inst stage >>= f).run s = (f n).run s := by
  refine Exec.run_bind_ok ?_ f
  change (s.getNodeViaInst inst stage, s) = _
  rw [h]

lemma mem_of_find? {p : RiscvInstruction → Bool} (h : past.find? p = some prev) :
    prev ∈ inst :: past := List.mem_cons_of_mem _ (List.mem_of_find?_eq_some h)

lemma run_missBp (h : Located (inst :: past) s.graph) (hs : s.insts = past) (hpast : past ≠ []) :
    (modelMissBpInteraction inst).run s = (.ok (), s.connect (missBpEdges past inst)) := by
  obtain ⟨prev, rest, rfl⟩ := List.exists_cons_of_ne_nil hpast
  rw [modelMissBpInteraction, Exec.run_bind_ok (Exec.run_get s), hs]
  simp only [missBpEdges, List.head?_cons]
  have hprev : prev ∈ inst :: prev :: rest := by simp
  by_cases hmiss : prev.isControl = true ∧ prev.complete < inst.fetchCacheLine
  · rw [if_pos hmiss, if_pos hmiss]
    rw [run_getNodeViaInst (h.getNodeViaInst_complete hprev),
      run_getNodeViaInst (h.getNodeViaInst List.mem_cons_self .f1 nodeF1_mem rfl)]
    rfl
  · rw [if_neg hmiss, if_neg hmiss]
    rfl

lemma run_connectRename (h : Located insts s.graph) (hp : prev ∈ insts) (hi : inst ∈ insts)
    (btnk : Bottleneck) :
    (connectRename btnk prev inst).run s = (.ok (), s.connect [renameEdge btnk prev inst]) := by
  rw [connectRename, run_getNodeViaInst (h.getNodeViaInst hp .rename nodeRename_mem rfl),
    run_getNodeViaInst (h.getNodeViaInst hi .rename nodeRename_mem rfl)]
  rfl

lemma run_modelResource (h : Located (inst :: past) s.graph) (hs : s.insts = past)
    (btnk : Bottleneck) (same : RiscvInstruction → Bool) :
    (modelResource btnk same inst).run s =
      (.ok (), s.connect (resourceEdges btnk same past inst)) := by
  rw [modelResource, Exec.run_bind_ok (Exec.run_get s), hs, resourceEdges]
  cases hfind : past.find? same with
  | none      => rfl
  | some prev => exact run_connectRename h (mem_of_find? hfind) List.mem_cons_self btnk

/-- A computation that runs under a condition and adds edges. -/
lemma run_when {c : Prop} [Decidable c] {x : GraphM Unit} {es : List Edge}
    (h : x.run s = (.ok (), s.connect es)) :
    (if c then x else pure () : GraphM Unit).run s =
      (.ok (), s.connect (if c then es else [])) := by
  split_ifs
  · exact h
  · rfl

/-- All instructions of the past come before `inst`. -/
def Older (past : List RiscvInstruction) (inst : RiscvInstruction) : Prop :=
  ∀ prev ∈ past, prev.seq < inst.seq

lemma findRfDep_eq (h : Older past inst) :
    findRfDep inst past = .ok (past.find? (rfConflict inst)) := by
  induction past with
  | nil => rfl
  | cons prev rest ih =>
    obtain ⟨hprev, hrest⟩ := List.forall_mem_cons.mp h
    have hwar : warDep inst prev = .ok (prev.src.contains inst.dst) := if_pos hprev
    rw [findRfDep, hwar, List.find?_cons]
    change (if rfConflict inst prev = true then _ else _) = _
    cases rfConflict inst prev with
    | true  => rfl
    | false => exact ih hrest

lemma run_modelRf (h : Located (inst :: past) s.graph) (hs : s.insts = past)
    (ho : Older past inst) :
    (modelRfInteraction inst).run s = (.ok (), s.connect (rfEdges past inst)) := by
  rw [modelRfInteraction, rfEdges]
  refine run_when ?_
  rw [Exec.run_bind_ok (Exec.run_get s), hs, findRfDep_eq ho,
    Exec.run_bind_ok (Exec.run_ofExcept _ s)]
  cases hfind : past.find? (rfConflict inst) with
  | none      => cases rfBottleneck inst <;> rfl
  | some prev =>
    change (getNodeViaInst prev .rename >>= _).run s = _
    rw [run_getNodeViaInst (h.getNodeViaInst (mem_of_find? hfind) .rename nodeRename_mem rfl),
      run_getNodeViaInst (h.getNodeViaInst List.mem_cons_self .rename nodeRename_mem rfl)]
    cases rfBottleneck inst <;> rfl

/-- The loop stops at the first conflict, unless the instruction uses no functional unit. -/
lemma run_fuLoop (h : Located insts s.graph) (hi : inst ∈ insts)
    (hpast : ∀ prev ∈ past, prev ∈ insts) :
    (fuLoop inst past).run s = (.ok (), s.connect
      (match fuBottleneck inst, past.find? (fuConflict inst) with
        | some btnk, some prev => [issueEdge btnk prev inst]
        | _,         _         => [])) := by
  induction past with
  | nil => cases fuBottleneck inst <;> rfl
  | cons prev rest ih =>
    obtain ⟨hprev, hrest⟩ := List.forall_mem_cons.mp hpast
    have ih := ih hrest
    rw [fuLoop, List.find?_cons]
    by_cases hconf : inst.fu = prev.fu ∧ prev.issue < inst.issue ∧
        (inst.isLoad = true ∧ inst.issue ≤ prev.completeMemory ∨ inst.issue ≤ prev.complete)
    · have hfu : fuConflict inst prev = true := decide_eq_true hconf
      rw [if_pos hconf, hfu, run_getNodeViaInst (h.getNodeViaInst_issue hprev),
        run_getNodeViaInst (h.getNodeViaInst_issue hi)]
      cases hb : fuBottleneck inst with
      | none      => rw [hb] at ih; simpa using ih
      | some btnk => rfl
    · have hfu : fuConflict inst prev = false := decide_eq_false hconf
      rw [if_neg hconf, hfu]
      exact ih

lemma run_modelFu (h : Located (inst :: past) s.graph) (hs : s.insts = past) :
    (modelFuInteraction inst).run s = (.ok (), s.connect (fuEdges past inst)) := by
  rw [modelFuInteraction, fuEdges]
  refine run_when ?_
  rw [Exec.run_bind_ok (Exec.run_get s), hs]
  exact run_fuLoop h List.mem_cons_self fun prev hprev => List.mem_cons_of_mem _ hprev

/-- The inner loop keeps the dependency or replaces it by `prev`. -/
lemma rawInner_ok (hprev : prev.seq < inst.seq) (len k i : ℕ) (t : ℤ)
    (dep : Option RiscvInstruction) :
    ∃ r, rawInner inst prev len k i t dep = .ok r ∧ (r.2.2 = dep ∨ r.2.2 = some prev) := by
  induction k generalizing i t dep with
  | zero => exact ⟨_, rfl, .inl rfl⟩
  | succ k ih =>
    have hraw : rawDep inst prev = .ok (inst.src.contains prev.dst) := if_pos hprev
    rw [rawInner]
    by_cases hi : i < len
    · rw [if_pos hi, hraw]
      change ∃ r, (if (inst.src.contains prev.dst && t < resultCycle prev) = true then _ else _) =
        Except.ok r ∧ _
      split_ifs
      · obtain ⟨r, hr, hdep⟩ := ih (i + 1) (resultCycle prev) (some prev)
        exact ⟨r, hr, .inr (hdep.elim id id)⟩
      · exact ih (i + 1) t dep
    · rw [if_neg hi]
      exact ⟨_, rfl, .inl rfl⟩

/-- The search for a producer returns, and what it finds is an instruction of the past that writes
a source register. -/
lemma rawOuter_ok (ho : Older past inst) (const m i : ℕ) (t : ℤ)
    (dep : Option RiscvInstruction)
    (hdep : ∀ prev, dep = some prev → prev ∈ past ∧ inst.src.contains prev.dst = true) :
    ∃ r, rawOuter inst const past m i t dep = .ok r ∧
      ∀ prev, r = some prev → prev ∈ past ∧ inst.src.contains prev.dst = true := by
  induction m generalizing i t dep with
  | zero => exact ⟨dep, rfl, hdep⟩
  | succ m ih =>
    rw [rawOuter]
    cases hget : past[i]? with
    | none      => exact ⟨dep, rfl, hdep⟩
    | some prev =>
      have hmem := List.mem_of_getElem? hget
      have hraw : rawDep inst prev = .ok (inst.src.contains prev.dst) := if_pos (ho prev hmem)
      -- after the inner loop the search either stops or goes on with the next instruction
      have hnext : ∀ r : ℕ × ℤ × Option RiscvInstruction,
          (∀ q, r.2.2 = some q → q ∈ past ∧ inst.src.contains q.dst = true) →
          ∃ r', (if r.2.2.isSome = true then pure r.2.2
            else rawOuter inst const past m (r.1 + 1) r.2.1 r.2.2) = Except.ok r' ∧
            ∀ q, r' = some q → q ∈ past ∧ inst.src.contains q.dst = true := by
        intro r hr
        split_ifs
        · exact ⟨_, rfl, hr⟩
        · exact ih _ _ _ hr
      simp only [hraw]
      change ∃ r, (if inst.src.contains prev.dst = true then _ else _) = Except.ok r ∧ _
      split_ifs with hdep'
      · obtain ⟨r, hr, hcase⟩ := rawInner_ok (ho prev hmem) past.length const i t dep
        rw [hr]
        refine hnext r fun q hq => ?_
        rcases hcase with hcase | hcase
        · exact hdep q (hcase ▸ hq)
        · obtain rfl : prev = q := by simpa [hcase] using hq
          exact ⟨hmem, hdep'⟩
      · exact hnext (i, t, dep) hdep

lemma run_modelRaw (h : Located (inst :: past) s.graph) (hs : s.insts = past)
    (ho : Older past inst) :
    (modelRawInteraction inst rawConst).run s = (.ok (), s.connect (rawEdges past inst)) := by
  rw [modelRawInteraction, rawEdges]
  refine run_when ?_
  obtain ⟨r, hr, hmem⟩ := rawOuter_ok ho rawConst (past.length + 1) 0 0 none (by simp)
  rw [Exec.run_bind_ok (Exec.run_get s), hs]
  change (Exec.ofExcept (rawOuter inst rawConst past (past.length + 1) 0 0 none) >>= _).run s = _
  rw [hr, Exec.run_bind_ok (Exec.run_ofExcept _ s)]
  cases r with
  | none      => rfl
  | some prev =>
    have hprev : prev ∈ inst :: past := List.mem_cons_of_mem _ (hmem prev rfl).1
    change (getNodeViaInst prev .issue >>= _).run s = _
    rw [run_getNodeViaInst (h.getNodeViaInst_issue hprev),
      run_getNodeViaInst (h.getNodeViaInst_issue List.mem_cons_self)]
    rfl

/-! ### The kinds of dependences -/

/-- A mispredicted branch delays the next fetch, and a busy resource delays the renaming or the
issue of a later instruction. -/
inductive CrossEdge (past : List RiscvInstruction) (inst : RiscvInstruction) : Edge → Prop
  | miss {prev : RiscvInstruction} (hprev : prev ∈ past) (hcontrol : prev.isControl = true)
      (hlt : prev.complete < inst.fetchCacheLine) (btnk : Bottleneck) :
      CrossEdge past inst
        (skewEdge (completedNode prev) (nodeF1 inst) (inst.fetchCacheLine - prev.complete) btnk)
  | rename {prev : RiscvInstruction} (hprev : prev ∈ past) (btnk : Bottleneck) :
      CrossEdge past inst (renameEdge btnk prev inst)
  | issue {prev : RiscvInstruction} (hprev : prev ∈ past) (btnk : Bottleneck) :
      CrossEdge past inst (issueEdge btnk prev inst)

lemma crossEdge_missBp : ∀ e ∈ missBpEdges past inst, CrossEdge past inst e := by
  unfold missBpEdges
  cases past with
  | nil => simp
  | cons prev rest =>
    simp only [List.head?_cons]
    split_ifs with h
    · simpa using CrossEdge.miss List.mem_cons_self h.1 h.2 _
    · simp

lemma crossEdge_resource (btnk : Bottleneck) (same : RiscvInstruction → Bool) :
    ∀ e ∈ resourceEdges btnk same past inst, CrossEdge past inst e := by
  unfold resourceEdges
  cases h : past.find? same with
  | none      => simp
  | some prev => simpa using CrossEdge.rename (List.mem_of_find?_eq_some h) btnk

/-- The edge of a register conflict. -/
lemma exists_of_mem_rfEdges {e : Edge} (he : e ∈ rfEdges past inst) :
    ∃ btnk, ∃ prev ∈ past, rfConflict inst prev = true ∧ e = renameEdge btnk prev inst := by
  unfold rfEdges at he
  split_ifs at he
  · split at he
    next btnk prev _ hfind =>
      exact ⟨btnk, prev, List.mem_of_find?_eq_some hfind, List.find?_some hfind,
        List.mem_singleton.mp he⟩
    next => cases he
  · cases he

lemma crossEdge_rf : ∀ e ∈ rfEdges past inst, CrossEdge past inst e := by
  intro e he
  obtain ⟨btnk, prev, hprev, -, rfl⟩ := exists_of_mem_rfEdges he
  exact .rename hprev btnk

lemma crossEdge_fu : ∀ e ∈ fuEdges past inst, CrossEdge past inst e := by
  unfold fuEdges
  split_ifs
  · cases fuBottleneck inst with
    | none      => simp
    | some btnk =>
      cases h : past.find? (fuConflict inst) with
      | none      => simp
      | some prev => simpa using CrossEdge.issue (List.mem_of_find?_eq_some h) btnk
  · simp

/-- The edge from a producer. -/
lemma exists_of_mem_rawEdges {e : Edge} (ho : Older past inst) (he : e ∈ rawEdges past inst) :
    ∃ btnk, ∃ prev ∈ past, inst.src.contains prev.dst = true ∧ e = issueEdge btnk prev inst := by
  unfold rawEdges at he
  obtain ⟨r, hr, hmem⟩ := rawOuter_ok ho rawConst (past.length + 1) 0 0 none (by simp)
  rw [hr] at he
  split_ifs at he
  · cases r with
    | none      => cases he
    | some prev => exact ⟨_, prev, (hmem prev rfl).1, (hmem prev rfl).2, List.mem_singleton.mp he⟩
  · cases he

lemma crossEdge_raw (ho : Older past inst) : ∀ e ∈ rawEdges past inst, CrossEdge past inst e := by
  intro e he
  obtain ⟨btnk, prev, hprev, -, rfl⟩ := exists_of_mem_rawEdges ho he
  exact .issue hprev btnk

lemma crossEdge_interaction (ho : Older past inst) :
    ∀ e ∈ interactionEdges past inst, CrossEdge past inst e := by
  have hwhen : ∀ {c : Prop} [Decidable c] {es : List Edge}, (∀ e ∈ es, CrossEdge past inst e) →
      ∀ e ∈ (if c then es else []), CrossEdge past inst e := by
    intro c _ es hes
    split_ifs
    · exact hes
    · simp
  simp only [interactionEdges, List.forall_mem_append]
  exact ⟨⟨⟨⟨⟨⟨⟨crossEdge_missBp, hwhen (crossEdge_resource _ _)⟩, hwhen (crossEdge_resource _ _)⟩,
    hwhen (crossEdge_resource _ _)⟩, crossEdge_rf⟩, hwhen (crossEdge_resource _ _)⟩, crossEdge_fu⟩,
    crossEdge_raw ho⟩

variable {e : Edge}

lemma CrossEdge.owned (h : CrossEdge past inst e) : e.Owned (inst :: past) := by
  cases h with
  | miss hprev _ _ _ =>
    exact ⟨⟨_, List.mem_cons_of_mem _ hprev, completedNode_mem⟩, inst, List.mem_cons_self,
      nodeF1_mem⟩
  | rename hprev _ =>
    exact ⟨⟨_, List.mem_cons_of_mem _ hprev, nodeRename_mem⟩, inst, List.mem_cons_self,
      nodeRename_mem⟩
  | issue hprev _ =>
    exact ⟨⟨_, List.mem_cons_of_mem _ hprev, issuedNode_mem⟩, inst, List.mem_cons_self,
      issuedNode_mem⟩

lemma CrossEdge.seq_lt (h : CrossEdge past inst e) (ho : Older past inst) : e.u.seq < e.v.seq := by
  cases h with
  | miss hprev _ _ _ =>
    simp only [skewEdge, completedNode_seq]
    exact ho _ hprev
  | rename hprev _   => exact ho _ hprev
  | issue hprev _    =>
    simp only [issueEdge, skewEdge, issuedNode_seq]
    exact ho _ hprev

lemma CrossEdge.delay_eq (h : CrossEdge past inst e) (hl : ∀ i ∈ past, i.Legal) :
    e.delay = e.v.timestamp - e.u.timestamp := by
  cases h with
  | miss hprev hcontrol _ _ =>
    simp only [skewEdge, completedNode_eq ((hl _ hprev).control hcontrol)]
    rfl
  | rename _ _              => rfl
  | issue _ _               => simp only [issueEdge, skewEdge, issuedNode_timestamp]

lemma CrossEdge.edgeOk {T : Prop} (h : CrossEdge past inst e) (hl : T → ∀ i ∈ past, i.Legal)
    (ho : Older past inst) : EdgeOk T e where
  delay := fun ht => h.delay_eq (hl ht)
  rank := Node.rank_lt_of_seq (h.seq_lt ho)
  within := fun heq => absurd heq (h.seq_lt ho).ne

/-! ### The construction -/

/-- On a graph with the nodes of `insts`, the computation adds the listed edges and returns. -/
def Adds (insts past : List RiscvInstruction) (x : GraphM Unit) (es : List Edge) : Prop :=
  ∀ s : Graph, Located insts s.graph → s.insts = past → x.run s = (.ok (), s.connect es)

lemma Adds.bind {x y : GraphM Unit} {es es' : List Edge} (hx : Adds insts past x es)
    (hes : ∀ e ∈ es, e.Owned insts) (hy : Adds insts past y es') :
    Adds insts past (x >>= fun _ => y) (es ++ es') := by
  intro s h hs
  rw [Exec.run_bind_ok (hx s h hs), hy (s.connect es) (h.connect hes) hs, Graph.connect_append]

lemma interactionEdges_nil : interactionEdges [] inst = [] := by
  simp [interactionEdges, missBpEdges, robEdges, lqEdges, sqEdges, rfEdges, iqEdges, fuEdges,
    rawEdges, resourceEdges, rawOuter]

/-- The dependences of an instruction, one after the other. -/
lemma adds_interaction (ho : Older past inst) :
    Adds (inst :: past) past (modelInteractionImpl inst) (interactionEdges past inst) := by
  intro s h hs
  rw [modelInteractionImpl, Exec.run_bind_ok (Exec.run_get s), hs]
  by_cases hpast : past = []
  · rw [if_pos hpast, hpast, interactionEdges_nil]
    rfl
  · rw [if_neg hpast]
    have howned : ∀ e ∈ interactionEdges past inst, e.Owned (inst :: past) :=
      fun e he => (crossEdge_interaction ho e he).owned
    simp only [interactionEdges, List.forall_mem_append] at howned ⊢
    obtain ⟨⟨⟨⟨⟨⟨⟨hmiss, hrob⟩, hlq⟩, hsq⟩, hrf⟩, hiq⟩, hfu⟩, -⟩ := howned
    have hall : Adds (inst :: past) past _ _ :=
      Adds.bind (fun s h hs => run_missBp h hs hpast) hmiss <|
      Adds.bind (fun s h hs => run_when (run_modelResource h hs _ _)) hrob <|
      Adds.bind (fun s h hs => run_when (run_modelResource h hs _ _)) hlq <|
      Adds.bind (fun s h hs => run_when (run_modelResource h hs _ _)) hsq <|
      Adds.bind (fun s h hs => run_modelRf h hs ho) hrf <|
      Adds.bind (fun s h hs => run_when (run_modelResource h hs _ _)) hiq <|
      Adds.bind (fun s h hs => run_modelFu h hs) hfu
        (fun s h hs => run_modelRaw h hs ho)
    simp only [List.append_assoc]
    exact hall s h hs

/-- The nodes that are added for an instruction are found afterwards. -/
lemma get?_addNodes (nodes : List Node) (g : DiGraph String Node Edge) (name : String)
    (hnodup : (nodes.map Node.name).Nodup) :
    (nodes.foldl (fun g n => g.addNode n.name n) g).nodes.get? name =
      match nodes.find? (fun n => n.name = name) with
      | some n => some (some n)
      | none   => g.nodes.get? name := by
  induction nodes generalizing g with
  | nil => rfl
  | cons n nodes ih =>
    rw [List.map_cons, List.nodup_cons] at hnodup
    rw [List.foldl_cons, ih _ hnodup.2, List.find?_cons]
    by_cases hname : n.name = name
    · have hnone : nodes.find? (fun n => n.name = name) = none := by
        rw [List.find?_eq_none]
        intro m hm hm'
        rw [decide_eq_true_eq] at hm'
        exact hnodup.1 (List.mem_map.mpr ⟨m, hm, hm'.trans hname.symm⟩)
      simp [hnone, hname, DiGraph.addNode]
    · simp [hname, DiGraph.addNode, Dict.get?_set_ne _ _ (Ne.symm hname)]

lemma run_addNodes (nodes : List Node) : (addNodes nodes).run s =
    (.ok (), { s with graph := nodes.foldl (fun g n => g.addNode n.name n) s.graph }) := by
  induction nodes generalizing s with
  | nil => rfl
  | cons n nodes ih => exact ih

lemma edges_addNodes (nodes : List Node) (g : DiGraph String Node Edge) :
    (nodes.foldl (fun g n => g.addNode n.name n) g).edges = g.edges := by
  induction nodes generalizing g with
  | nil => rfl
  | cons n nodes ih => exact ih _

/-- Adding the nodes of the next instruction. -/
lemma Located.addNodes (h : Located past g) (ho : Older past inst) :
    Located (inst :: past) ((modelNodes inst).foldl (fun g n => g.addNode n.name n) g) := by
  have hget := fun name => get?_addNodes (modelNodes inst) g name (nodup_names inst)
  have hfind : ∀ n ∈ modelNodes inst,
      (modelNodes inst).find? (fun m => m.name = n.name) = some n := by
    intro n hn
    cases hf : (modelNodes inst).find? (fun m => m.name = n.name) with
    | none   => simpa using List.find?_eq_none.mp hf n hn
    | some m =>
      have hm := List.mem_of_find?_eq_some hf
      have hname : m.name = n.name := by simpa using List.find?_some hf
      rw [List.inj_on_of_nodup_map (nodup_names inst) hm hn hname]
  refine ⟨?_, ?_, ?_⟩
  · intro i hi j hj hij
    rcases List.mem_cons.mp hi with rfl | hi' <;> rcases List.mem_cons.mp hj with rfl | hj'
    · rfl
    · exact absurd hij (ho j hj').ne'
    · exact absurd hij (ho i hi').ne
    · exact h.unique i hi' j hj' hij
  · intro i hi n hn
    rw [hget]
    rcases List.mem_cons.mp hi with rfl | hi
    · rw [hfind n hn]
    · cases hf : (modelNodes inst).find? (fun m => m.name = n.name) with
      | none   => exact h.found i hi n hn
      | some m =>
        -- nodes of an older instruction have other names
        have hname : m.name = n.name := by simpa using List.find?_some hf
        have hseq := (uniqueName_inj hname).1
        rw [seq_of_mem (List.mem_of_find?_eq_some hf), seq_of_mem hn] at hseq
        exact absurd hseq (ho i hi).ne'
  · intro name d hd
    rw [hget] at hd
    cases hf : (modelNodes inst).find? (fun m => m.name = name) with
    | none   =>
      rw [hf] at hd
      obtain ⟨i, hi, n, hn, hname, hdn⟩ := h.owned name d hd
      exact ⟨i, List.mem_cons_of_mem _ hi, n, hn, hname, hdn⟩
    | some m =>
      rw [hf, Option.some.injEq] at hd
      exact ⟨inst, List.mem_cons_self, m, List.mem_of_find?_eq_some hf,
        by simpa using List.find?_some hf, hd.symm⟩

/-- The nodes of the next instruction are listed behind the others. -/
lemma keys_addNodes {nodes : List Node} (g : DiGraph String Node Edge)
    (hnodup : (nodes.map Node.name).Nodup) (hnew : ∀ n ∈ nodes, n.name ∉ g.nodes.keys) :
    (nodes.foldl (fun g n => g.addNode n.name n) g).nodes.keys =
      g.nodes.keys ++ nodes.map Node.name := by
  induction nodes generalizing g with
  | nil => simp
  | cons n nodes ih =>
    obtain ⟨hn, hnodup⟩ := List.nodup_cons.mp hnodup
    obtain ⟨hhead, htail⟩ := List.forall_mem_cons.mp hnew
    have hkeys : (g.addNode n.name n).nodes.keys = g.nodes.keys ++ [n.name] := by
      rw [DiGraph.addNode, Dict.keys_set, if_neg hhead]
    rw [List.foldl_cons, ih _ hnodup, hkeys, List.append_assoc]
    · rfl
    · intro m hm
      rw [hkeys, List.mem_append, List.mem_singleton]
      rintro (h | h)
      · exact htail m hm h
      · exact hn (h ▸ List.mem_map_of_mem hm)

/-- No node of the next instruction is in the graph. -/
lemma Located.notMem_keys (h : Located past g) (ho : Older past inst) {n : Node}
    (hn : n ∈ modelNodes inst) : n.name ∉ g.nodes.keys := by
  intro hmem
  obtain ⟨d, hd⟩ := Dict.mem_keys_iff.mp hmem
  obtain ⟨i, hi, m, hm, hname, -⟩ := h.owned _ _ hd
  have hseq := (uniqueName_inj hname).1
  rw [seq_of_mem hm, seq_of_mem hn] at hseq
  exact (ho i hi).ne hseq

/-- A dictionary of edges that holds the last of the listed edges between any two nodes. -/
def edgeDict (es : List Edge) : Dict (String × String) Edge :=
  es.foldl (fun d e => d.set (e.u.name, e.v.name) e) .empty

lemma edgeDict_append (es es' : List Edge) : edgeDict (es ++ es') =
    es'.foldl (fun d e => d.set (e.u.name, e.v.name) e) (edgeDict es) := List.foldl_append

lemma edges_connect (s : Graph) (es : List Edge) : (s.connect es).graph.edges =
    es.foldl (fun d e => d.set (e.u.name, e.v.name) e) s.graph.edges := by
  induction es generalizing s with
  | nil => rfl
  | cons e es ih => exact ih (s.connect [e])

/-- The state after the instructions `insts`, the newest one first, have been read. -/
structure Constructed (insts : List RiscvInstruction) (s : Graph) : Prop where
  located : Located insts s.graph
  keys_eq : s.graph.nodes.keys = (insts.reverse.flatMap modelNodes).map Node.name
  edges_eq : s.graph.edges = edgeDict (traceEdges insts)
  insts_eq : s.insts = insts
  bottleneck_eq : s.bottleneck = constructBottleneck

lemma Constructed.init : Constructed [] .init where
  located := ⟨by simp, by simp, fun name d h => by simp [Graph.init, DiGraph.empty] at h⟩
  keys_eq := rfl
  edges_eq := rfl
  insts_eq := rfl
  bottleneck_eq := rfl

lemma owned_modelEdges : ∀ e ∈ modelEdges inst, e.Owned (inst :: past) := by
  intro e he
  obtain ⟨hu, hv⟩ := ends_mem_modelNodes e he
  exact ⟨⟨inst, List.mem_cons_self, hu⟩, inst, List.mem_cons_self, hv⟩

lemma updateStats_fields (inst : RiscvInstruction) (s : Graph) :
    (updateStats inst s).graph = s.graph ∧
    (updateStats inst s).insts = s.insts ∧ (updateStats inst s).bottleneck = s.bottleneck := by
  unfold updateStats
  dsimp only
  split_ifs <;> exact ⟨rfl, rfl, rfl⟩

/-- The state between the two halves of an instruction: its chain has been added and its dependences
have not. -/
structure Chained (past : List RiscvInstruction) (inst : RiscvInstruction) (s : Graph) : Prop where
  located : Located (inst :: past) s.graph
  keys_eq : s.graph.nodes.keys = ((inst :: past).reverse.flatMap modelNodes).map Node.name
  edges_eq : s.graph.edges = edgeDict (traceEdges past ++ modelEdges inst)
  insts_eq : s.insts = past
  bottleneck_eq : s.bottleneck = constructBottleneck

/-- Adding the nodes and the chain of the next instruction. -/
lemma Constructed.chained (h : Constructed past s) (ho : Older past inst) :
    ∃ s', (model inst).run s = (.ok (), s') ∧ Chained past inst s' := by
  let s₁ : Graph :=
    { s with graph := (modelNodes inst).foldl (fun g n => g.addNode n.name n) s.graph }
  have hloc₁ : Located (inst :: past) s₁.graph := h.located.addNodes ho
  obtain ⟨hgraph, hinsts, hbtnk⟩ := updateStats_fields inst (s₁.connect (modelEdges inst))
  refine ⟨updateStats inst (s₁.connect (modelEdges inst)), ?_, ?_, ?_, ?_, ?_, ?_⟩
  · rw [model, Exec.run_bind_ok (run_addNodes _), Exec.run_bind_ok (run_addEdges _)]
    rfl
  · rw [hgraph]
    exact hloc₁.connect owned_modelEdges
  · have hkeys : s₁.graph.nodes.keys = s.graph.nodes.keys ++ (modelNodes inst).map Node.name :=
      keys_addNodes _ (nodup_names inst) fun n hn => h.located.notMem_keys ho hn
    rw [hgraph, hloc₁.nodes_connect owned_modelEdges, hkeys, h.keys_eq]
    simp
  · have hnodes : s₁.graph.edges = s.graph.edges := edges_addNodes _ _
    rw [hgraph, edges_connect, edgeDict_append, ← h.edges_eq, hnodes]
  · exact hinsts.trans h.insts_eq
  · exact hbtnk.trans h.bottleneck_eq

/-- Adding the dependences of an instruction. -/
lemma Chained.interaction (h : Chained past inst s) (ho : Older past inst) :
    ∃ s', (modelInteraction inst).run s = (.ok (), s') ∧ Constructed (inst :: past) s' := by
  have hrun := adds_interaction ho s h.located h.insts_eq
  have howned : ∀ e ∈ interactionEdges past inst, e.Owned (inst :: past) :=
    fun e he => (crossEdge_interaction ho e he).owned
  refine ⟨{ s.connect (interactionEdges past inst) with
    insts := inst :: (s.connect (interactionEdges past inst)).insts }, ?_, ?_⟩
  · rw [modelInteraction, Exec.run_bind_ok hrun]
    rfl
  · refine ⟨h.located.connect howned, ?_, ?_, ?_, h.bottleneck_eq⟩
    · exact (congrArg Dict.keys (h.located.nodes_connect howned)).trans h.keys_eq
    · rw [traceEdges, edgeDict_append, ← h.edges_eq]
      exact edges_connect s _
    · simp only [Graph.connect_insts, h.insts_eq]

/-- Modelling the next instruction. -/
lemma Constructed.step (h : Constructed past s) (ho : Older past inst) :
    ∃ s', (do model inst; modelInteraction inst : GraphM Unit).run s = (.ok (), s') ∧
      Constructed (inst :: past) s' := by
  obtain ⟨s₁, hmodel, h₁⟩ := h.chained ho
  obtain ⟨s₂, hinteraction, h₂⟩ := h₁.interaction ho
  exact ⟨s₂, by rw [Exec.run_bind_ok hmodel, hinteraction], h₂⟩

/-- The instructions are numbered backwards. -/
def Descending (insts : List RiscvInstruction) : Prop := insts.Pairwise fun a b => b.seq < a.seq

/-- Modelling the rest of a trace. -/
lemma Constructed.forM (l : List RiscvInstruction) (h : Constructed past s)
    (hseq : Descending (l.reverse ++ past)) :
    ∃ s', (forM l fun inst => do model inst; modelInteraction inst : GraphM Unit).run s =
      (.ok (), s') ∧ Constructed (l.reverse ++ past) s' := by
  induction l generalizing past s with
  | nil => exact ⟨s, rfl, h⟩
  | cons inst l ih =>
    rw [List.reverse_cons, List.append_assoc, List.singleton_append] at hseq ⊢
    have ho : Older past inst := (List.pairwise_cons.mp (List.pairwise_append.mp hseq).2.1).1
    obtain ⟨s₁, hrun, h₁⟩ := h.step ho
    obtain ⟨s₂, hrest, h₂⟩ := ih h₁ hseq
    refine ⟨s₂, ?_, h₂⟩
    rw [List.forM_cons, Exec.run_bind_ok hrun, hrest]

lemma pairwise_instructionStream (trace : List TraceLine) (n : ℕ) :
    ((trace.zipIdx n).map fun p => (⟨p.1, p.2⟩ : RiscvInstruction)).Pairwise
      fun a b => a.seq < b.seq := by
  induction trace generalizing n with
  | nil => simp
  | cons line trace ih =>
    rw [List.zipIdx_cons, List.map_cons, List.pairwise_cons]
    refine ⟨?_, ih (n + 1)⟩
    simp only [List.mem_map, Prod.exists]
    rintro _ ⟨line', k, hk, rfl⟩
    exact (List.mk_mem_zipIdx_iff_le_and_getElem?_sub.mp hk).1

lemma legal_of_mem_stream {trace : List TraceLine} (hl : ∀ line ∈ trace, line.Legal)
    (h : i ∈ instructionStream trace) : i.Legal := by
  simp only [instructionStream, List.mem_map, Prod.exists] at h
  obtain ⟨line, k, hk, rfl⟩ := h
  exact hl line (List.fst_mem_of_mem_zipIdx hk)

lemma descending_stream (trace : List TraceLine) :
    Descending (instructionStream trace).reverse := by
  rw [Descending, List.pairwise_reverse]
  exact pairwise_instructionStream trace 1

/-- The construction returns. -/
theorem constructGraph_returns (trace : List TraceLine) :
    ∃ s, (constructGraph trace).run .init = (.ok (), s) ∧
      Constructed (instructionStream trace).reverse s := by
  obtain ⟨s, hrun, hs⟩ := Constructed.init.forM (instructionStream trace)
    (by rw [List.append_nil]; exact descending_stream trace)
  exact ⟨s, hrun, by rwa [List.append_nil] at hs⟩

/-! ### The edges of the graph -/

/-- An edge of the dictionary is one of the listed edges, under the names of its nodes. -/
lemma mem_of_edgeDict {es : List Edge} {k : String × String} (h : (edgeDict es).get? k = some e) :
    e ∈ es ∧ k = (e.u.name, e.v.name) := by
  induction es using List.reverseRecOn with
  | nil => simp [edgeDict] at h
  | append_singleton es e' ih =>
    rw [edgeDict_append, List.foldl_cons, List.foldl_nil, Dict.get?_set] at h
    split_ifs at h with hk
    · obtain rfl : e' = e := by simpa using h
      exact ⟨by simp, hk⟩
    · obtain ⟨hmem, hkey⟩ := ih h
      exact ⟨List.mem_append_left _ hmem, hkey⟩

/-- The dictionary holds the last edge between two names. -/
lemma get?_edgeDict (es : List Edge) (a b : String) :
    (edgeDict es).get? (a, b) = es.reverse.find? fun e => e.u.name = a ∧ e.v.name = b := by
  induction es using List.reverseRecOn with
  | nil => simp [edgeDict]
  | append_singleton es e ih =>
    rw [edgeDict_append, List.foldl_cons, List.foldl_nil, Dict.get?_set, List.reverse_concat,
      List.find?_cons, ← ih]
    by_cases h : e.u.name = a ∧ e.v.name = b
    · simp [h]
    · have hne : (a, b) ≠ (e.u.name, e.v.name) := fun heq => h (Prod.mk.inj heq.symm)
      simp [h, hne]

/-- Every listed edge connects its nodes in the dictionary. -/
lemma mem_keys_edgeDict {es : List Edge} (h : e ∈ es) :
    (e.u.name, e.v.name) ∈ (edgeDict es).keys := by
  induction es using List.reverseRecOn with
  | nil => simp at h
  | append_singleton es e' ih =>
    rw [edgeDict_append, List.foldl_cons, List.foldl_nil, Dict.mem_keys_set]
    rcases List.mem_append.mp h with h | h
    · exact .inr (ih h)
    · obtain rfl : e = e' := by simpa using h
      exact .inl rfl

/-- An edge of a trace belongs to the chain of an instruction or is one of its dependences. -/
lemma mem_traceEdges (hd : Descending insts) (h : e ∈ traceEdges insts) :
    (∃ i ∈ insts, e ∈ modelEdges i) ∨
      ∃ inst ∈ insts, ∃ past ⊆ insts, Older past inst ∧ CrossEdge past inst e := by
  induction insts with
  | nil => simp [traceEdges] at h
  | cons inst past ih =>
    obtain ⟨ho, hd⟩ := List.pairwise_cons.mp hd
    rw [traceEdges, List.append_assoc, List.mem_append, List.mem_append] at h
    rcases h with h | h | h
    · rcases ih hd h with ⟨i, hi, he⟩ | ⟨i, hi, p, hp, hop, hc⟩
      · exact .inl ⟨i, List.mem_cons_of_mem _ hi, he⟩
      · exact .inr ⟨i, List.mem_cons_of_mem _ hi, p,
          fun x hx => List.mem_cons_of_mem _ (hp hx), hop, hc⟩
    · exact .inl ⟨inst, List.mem_cons_self, h⟩
    · exact .inr ⟨inst, List.mem_cons_self, past, List.subset_cons_self _ _, ho,
        crossEdge_interaction ho e h⟩

lemma owned_traceEdges (hd : Descending insts) (h : e ∈ traceEdges insts) : e.Owned insts := by
  rcases mem_traceEdges hd h with ⟨i, hi, he⟩ | ⟨i, hi, p, hp, -, hc⟩
  · obtain ⟨hu, hv⟩ := ends_mem_modelNodes e he
    exact ⟨⟨i, hi, hu⟩, i, hi, hv⟩
  · have hsub : ∀ x ∈ i :: p, x ∈ insts := List.forall_mem_cons.mpr ⟨hi, hp⟩
    obtain ⟨⟨a, ha, hu⟩, b, hb, hv⟩ := hc.owned
    exact ⟨⟨a, hsub a ha, hu⟩, b, hsub b hb, hv⟩

lemma modelEdges_subset (h : i ∈ insts) : modelEdges i ⊆ traceEdges insts := by
  induction insts with
  | nil => simp at h
  | cons inst past ih =>
    intro e he
    rw [traceEdges, List.append_assoc, List.mem_append, List.mem_append]
    rcases List.mem_cons.mp h with rfl | h
    · exact .inr (.inl he)
    · exact .inl (ih h he)

end ArchExplorer.Core
