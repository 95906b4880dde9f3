import ArchExplorer.Core.Graph

/-!
# Construction of the graph

`model` enters the nodes and the chain of edges of one instruction, `modelInteraction` its
dependences on the instructions that were modelled before.
-/

namespace ArchExplorer.Core

open ArchExplorer.Lib

/-! ### Nodes within an instruction -/

def icacheHitDelay : ℤ := 2

def dcacheHitDelay : ℤ := 2

/-- A node of an instruction. -/
def mkNode (stage : PipelineStage) (timestamp : ℤ) (inst : RiscvInstruction) : Node :=
  ⟨stage, (timestamp, inst.seq)⟩

def nodeF1 (inst : RiscvInstruction) : Node := mkNode .f1 inst.fetchCacheLine inst

def nodeF2F (inst : RiscvInstruction) : Node := mkNode .f2f inst.fetch inst

def nodeF2 (inst : RiscvInstruction) : Node := mkNode .f2 inst.processCacheCompletion inst

def nodeFetch (inst : RiscvInstruction) : Node := mkNode .fetch inst.fetch inst

def nodeDecode (inst : RiscvInstruction) : Node := mkNode .decode inst.decode inst

def nodeRename (inst : RiscvInstruction) : Node := mkNode .rename inst.rename inst

def nodeDI (inst : RiscvInstruction) : Node := mkNode .di inst.dispatch inst

def nodeDispatch (inst : RiscvInstruction) : Node := mkNode .dispatch inst.dispatch inst

def nodeIssue (inst : RiscvInstruction) : Node := mkNode .issue inst.issue inst

def nodeMP (inst : RiscvInstruction) : Node := mkNode .mp inst.memory inst

def nodeMemory (inst : RiscvInstruction) : Node := mkNode .memory inst.memory inst

/-- The completion of a load, which has a time stamp of its own. -/
def nodeLoadComplete (inst : RiscvInstruction) : Node := mkNode .complete inst.completeMemory inst

def nodeComplete (inst : RiscvInstruction) : Node := mkNode .complete inst.complete inst

def nodeCommit (inst : RiscvInstruction) : Node := mkNode .commit inst.commit inst

def fetchNodes (inst : RiscvInstruction) : List Node :=
  if inst.processCacheCompletion = inst.fetch then [nodeF2F inst] else [nodeF2 inst, nodeFetch inst]

def issueNodes (inst : RiscvInstruction) : List Node :=
  if inst.dispatch = inst.issue then [nodeDI inst] else [nodeDispatch inst, nodeIssue inst]

def storeNodes (inst : RiscvInstruction) : List Node :=
  if inst.isStore then [nodeMP inst] else []

def loadNodes (inst : RiscvInstruction) : List Node :=
  if inst.isLoad then
    if inst.memory = inst.completeMemory then [nodeMP inst]
    else [nodeMemory inst, nodeLoadComplete inst]
  else []

def executeNodes (inst : RiscvInstruction) : List Node :=
  if inst.isMem then storeNodes inst ++ loadNodes inst else [nodeComplete inst]

/-- The nodes of an instruction, in the order in which they are added. -/
def modelNodes (inst : RiscvInstruction) : List Node :=
  [nodeF1 inst] ++ fetchNodes inst ++ [nodeDecode inst, nodeRename inst] ++ issueNodes inst ++
    executeNodes inst ++ [nodeCommit inst]

/-! ### Edges within an instruction -/

def icacheBottleneck (delay : ℤ) : Bottleneck :=
  if delay = icacheHitDelay then .base else .icacheMiss

def dcacheBottleneck (delay : ℤ) : Bottleneck :=
  if delay = dcacheHitDelay then .base else .dcacheMiss

/-- `F1 → F2/F → D` or `F1 → F2 → F → D`. -/
def fetchEdges (inst : RiscvInstruction) : List Edge :=
  let delay := inst.processCacheCompletion - inst.fetchCacheLine
  if inst.processCacheCompletion = inst.fetch then
    [⟨nodeF1 inst, nodeF2F inst, delay, 0, icacheBottleneck delay⟩,
      ⟨nodeF2F inst, nodeDecode inst, inst.decode - inst.fetch, 0, .base⟩]
  else
    [⟨nodeF1 inst, nodeF2 inst, delay, 0, icacheBottleneck delay⟩,
      ⟨nodeF2 inst, nodeFetch inst, inst.fetch - inst.processCacheCompletion, 0, .base⟩,
      ⟨nodeFetch inst, nodeDecode inst, inst.decode - inst.fetch, 0, .base⟩]

def edgeDispatchIssue (inst : RiscvInstruction) : Edge :=
  ⟨nodeDispatch inst, nodeIssue inst, inst.issue - inst.dispatch, 0, .base⟩

/-- `R → D/I` or `R → DS → I`. -/
def issueEdges (inst : RiscvInstruction) : List Edge :=
  if inst.dispatch = inst.issue then
    [⟨nodeRename inst, nodeDI inst, inst.issue - inst.rename, 0, .base⟩]
  else
    [⟨nodeRename inst, nodeDispatch inst, inst.dispatch - inst.rename, 0, .base⟩,
      edgeDispatchIssue inst]

def edgeMemoryComplete (inst : RiscvInstruction) : Edge :=
  let delay := inst.completeMemory - inst.memory
  ⟨nodeMemory inst, nodeLoadComplete inst, delay, 0, dcacheBottleneck delay⟩

def loadEdges (inst : RiscvInstruction) : List Edge :=
  if inst.dispatch = inst.issue then
    if inst.memory = inst.completeMemory then
      let delay := inst.complete - inst.dispatch
      [⟨nodeDI inst, nodeMP inst, delay, 0, dcacheBottleneck delay⟩]
    else
      [⟨nodeDI inst, nodeMemory inst, inst.memory - inst.issue, 0, .base⟩, edgeMemoryComplete inst]
  else
    if inst.memory = inst.completeMemory then
      [edgeDispatchIssue inst,
        ⟨nodeIssue inst, nodeMP inst, inst.completeMemory - inst.issue, 0, .base⟩]
    else
      [edgeDispatchIssue inst,
        ⟨nodeIssue inst, nodeMemory inst, inst.memory - inst.issue, 0, .base⟩,
        edgeMemoryComplete inst]

/-- From the issue to the completion. The edge from dispatch to issue is added again. -/
def executeEdges (inst : RiscvInstruction) : List Edge :=
  if inst.isMem then
    if inst.isStore then
      if inst.dispatch = inst.issue then
        [⟨nodeDI inst, nodeMP inst, inst.memory - inst.dispatch, 0, .base⟩]
      else
        [edgeDispatchIssue inst,
          ⟨nodeIssue inst, nodeMP inst, inst.complete - inst.issue, 0, .base⟩]
    else
      loadEdges inst
  else
    if inst.dispatch = inst.issue then
      [⟨nodeDI inst, nodeComplete inst, inst.complete - inst.issue, 0, .base⟩]
    else
      [edgeDispatchIssue inst,
        ⟨nodeIssue inst, nodeComplete inst, inst.complete - inst.issue, 0, .base⟩]

def commitEdge (inst : RiscvInstruction) : Edge :=
  if inst.isStore then
    ⟨nodeMP inst, nodeCommit inst, inst.commit - inst.complete, 0, .base⟩
  else if inst.isLoad then
    if inst.memory = inst.completeMemory then
      ⟨nodeMP inst, nodeCommit inst, inst.commit - inst.complete, 0, .base⟩
    else
      ⟨nodeLoadComplete inst, nodeCommit inst, inst.commit - inst.completeMemory, 0, .base⟩
  else
    ⟨nodeComplete inst, nodeCommit inst, inst.commit - inst.complete, 0, .base⟩

/-- The edges of an instruction, in the order in which they are added. -/
def modelEdges (inst : RiscvInstruction) : List Edge :=
  fetchEdges inst ++
    [⟨nodeDecode inst, nodeRename inst, inst.rename - inst.decode, 0, .base⟩] ++
    issueEdges inst ++ executeEdges inst ++ [commitEdge inst]

/-- The counters of branches, of accesses to the data cache and to the instruction cache. -/
def updateStats (inst : RiscvInstruction) (s : Graph) : Graph :=
  let s :=
    if inst.isControl then { s with brCount := s.brCount + 1 }
    else if inst.isMem then { s with dcacheAccessCount := s.dcacheAccessCount + 1 }
    else s
  if s.lastAccessIcache < inst.fetchCacheLine then
    { s with
      lastAccessIcache := inst.fetchCacheLine
      icacheAccessCount := s.icacheAccessCount + 1 }
  else s

def model (inst : RiscvInstruction) : GraphM Unit := do
  addNodes (modelNodes inst)
  addEdges (modelEdges inst)
  Exec.modify (updateStats inst)

/-! ### Dependences -/

def rawDep (tgt src : RiscvInstruction) : Except PyError Bool :=
  if src.seq < tgt.seq then .ok (tgt.src.contains src.dst) else .error (.assertionError "")

def warDep (tgt src : RiscvInstruction) : Except PyError Bool :=
  if src.seq < tgt.seq then .ok (src.src.contains tgt.dst) else .error (.assertionError "")

def wrwDep (tgt src : RiscvInstruction) : Bool := tgt.dst = src.dst

/-- An edge between two nodes whose cost is its delay. -/
def skewEdge (u v : Node) (delay : ℤ) (bottleneck : Bottleneck) : Edge :=
  ⟨u, v, delay, delay, bottleneck⟩

def modelMissBpInteraction (inst : RiscvInstruction) : GraphM Unit := do
  match (← Exec.get).insts with
  | []        => Exec.throw (.indexError "list index out of range")
  | prev :: _ =>
    if prev.isControl ∧ prev.complete < inst.fetchCacheLine then
      let u ← getNodeViaInst prev .complete
      let v ← getNodeViaInst inst .f1
      addEdge (skewEdge u v (inst.fetchCacheLine - prev.complete) .bpMiss)

/-- Connect the renaming stages of two instructions. -/
def connectRename (bottleneck : Bottleneck) (prev inst : RiscvInstruction) : GraphM Unit := do
  let u ← getNodeViaInst prev .rename
  let v ← getNodeViaInst inst .rename
  addEdge (skewEdge u v (inst.rename - prev.rename) bottleneck)

/-- Connect the renaming stage of the newest instruction that holds the same resource. -/
def modelResource (bottleneck : Bottleneck) (same : RiscvInstruction → Bool)
    (inst : RiscvInstruction) : GraphM Unit := do
  match (← Exec.get).insts.find? same with
  | some prev => connectRename bottleneck prev inst
  | none      => return ()

def modelRobInteraction (inst : RiscvInstruction) : GraphM Unit := do
  if inst.blockFromRob ≠ 0 then
    modelResource .rob (fun prev => prev.rob = inst.rob) inst

def modelLqInteraction (inst : RiscvInstruction) : GraphM Unit := do
  if inst.blockFromLq ≠ 0 ∧ inst.isLoad then
    modelResource .lq (fun prev => prev.lq = inst.lq) inst

def modelSqInteraction (inst : RiscvInstruction) : GraphM Unit := do
  if inst.blockFromSq ≠ 0 ∧ inst.isStore then
    modelResource .sq (fun prev => prev.sq = inst.sq) inst

/-- The newest instruction with a register conflict. -/
def findRfDep (inst : RiscvInstruction) :
    List RiscvInstruction → Except PyError (Option RiscvInstruction)
  | []           => .ok none
  | prev :: rest => do
    if (← warDep inst prev) || wrwDep inst prev then
      return some prev
    else
      findRfDep inst rest

/-- The register file that an instruction uses. -/
def rfBottleneck (inst : RiscvInstruction) : Option Bottleneck :=
  if inst.useIntRf then some .intRF
  else if inst.useFpRf then some .fpRF
  else none

def modelRfInteraction (inst : RiscvInstruction) : GraphM Unit := do
  if inst.blockFromRf ≠ 0 then
    match ← Exec.ofExcept (findRfDep inst (← Exec.get).insts) with
    | none            => return ()
    | some dependency =>
      let u ← getNodeViaInst dependency .rename
      let v ← getNodeViaInst inst .rename
      match rfBottleneck inst with
      | some bottleneck => addEdge (skewEdge u v (inst.rename - dependency.rename) bottleneck)
      | none            => return ()

def modelIqInteraction (inst : RiscvInstruction) : GraphM Unit := do
  if inst.blockFromIq ≠ 0 then
    modelResource .iq (fun prev => inst.iq = prev.iq) inst

/-- The functional unit that an instruction uses. -/
def fuBottleneck (inst : RiscvInstruction) : Option Bottleneck :=
  if inst.useIntAlu then some .intAlu
  else if inst.useIntMultDiv then some .intMultDiv
  else if inst.useFpAlu then some .fpAlu
  else if inst.useFpMultDiv then some .fpMultDiv
  else if inst.useRdWrPort then some .rdWrPort
  else none

/-- The loop that looks for the holder of the functional unit. -/
def fuLoop (inst : RiscvInstruction) : List RiscvInstruction → GraphM Unit
  | []           => return ()
  | prev :: rest => do
    if inst.fu = prev.fu ∧ prev.issue < inst.issue ∧
        (inst.isLoad ∧ inst.issue ≤ prev.completeMemory ∨ inst.issue ≤ prev.complete) then
      let u ← getNodeViaInst prev .issue
      let v ← getNodeViaInst inst .issue
      match fuBottleneck inst with
      | some bottleneck => addEdge (skewEdge u v (inst.issue - prev.issue) bottleneck)
      | none            => fuLoop inst rest
    else
      fuLoop inst rest

def modelFuInteraction (inst : RiscvInstruction) : GraphM Unit := do
  if inst.insertReadyList < inst.issue then
    fuLoop inst (← Exec.get).insts

/-- The cycle in which the result of an instruction is available. -/
def resultCycle (inst : RiscvInstruction) : ℤ :=
  if inst.isLoad then inst.completeMemory else inst.complete

/-- The inner loop of the search for a producer. It advances `i` but never `prev`; `k` counts the
iterations that are left. -/
def rawInner (inst prev : RiscvInstruction) (len : ℕ) :
    ℕ → ℕ → ℤ → Option RiscvInstruction → Except PyError (ℕ × ℤ × Option RiscvInstruction)
  | 0,     i, t, dependency => .ok (i, t, dependency)
  | k + 1, i, t, dependency =>
    if i < len then do
      if (← rawDep inst prev) && t < resultCycle prev then
        rawInner inst prev len k (i + 1) (resultCycle prev) (some prev)
      else
        rawInner inst prev len k (i + 1) t dependency
    else
      .ok (i, t, dependency)

/-- The outer loop of the search for a producer. Every iteration advances `i`. -/
def rawOuter (inst : RiscvInstruction) (const : ℕ) (insts : List RiscvInstruction) :
    ℕ → ℕ → ℤ → Option RiscvInstruction → Except PyError (Option RiscvInstruction)
  | 0,     _, _, dependency => .ok dependency
  | n + 1, i, t, dependency =>
    match insts[i]? with
    | none      => .ok dependency
    | some prev => do
      let (i, t, dependency) ←
        if ← rawDep inst prev then rawInner inst prev insts.length const i t dependency
        else pure (i, t, dependency)
      if dependency.isSome then
        return dependency
      else
        rawOuter inst const insts n (i + 1) t dependency

/-- The default value of `CONST`. -/
def rawConst : ℕ := 50

def modelRawInteraction (inst : RiscvInstruction) (const : ℕ) : GraphM Unit := do
  if inst.dispatch < inst.insertReadyList then
    let insts := (← Exec.get).insts
    match ← Exec.ofExcept (rawOuter inst const insts (insts.length + 1) 0 0 none) with
    | none            => return ()
    | some dependency =>
      let u ← getNodeViaInst dependency .issue
      let v ← getNodeViaInst inst .issue
      let delay := inst.issue - dependency.issue
      addEdge (skewEdge u v delay (if dependency.isLoad then dcacheBottleneck delay else .raw))

def modelInteractionImpl (inst : RiscvInstruction) : GraphM Unit := do
  if (← Exec.get).insts = [] then
    return ()
  modelMissBpInteraction inst
  modelRobInteraction inst
  modelLqInteraction inst
  modelSqInteraction inst
  modelRfInteraction inst
  modelIqInteraction inst
  modelFuInteraction inst
  modelRawInteraction inst rawConst

def modelInteraction (inst : RiscvInstruction) : GraphM Unit := do
  modelInteractionImpl inst
  Exec.modify fun s => { s with insts := inst :: s.insts }

/-- Read a whole trace. -/
def constructGraph (trace : List TraceLine) : GraphM Unit :=
  forM (instructionStream trace) fun inst => do
    model inst
    modelInteraction inst

end ArchExplorer.Core
