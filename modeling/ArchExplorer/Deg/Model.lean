import ArchExplorer.Deg.Graph

/-!
# Construction of the graph

`model` enters the chain of stages of one instruction. `modelInteraction` enters its dependences
on the instructions of the window.
-/

namespace ArchExplorer.Deg

open ArchExplorer.Lib

/-! ### Edges within an instruction -/

def icacheHitLatency : Latency := 2

def dcacheIntLatency : Latency := 2

/-- A fetch that takes longer than a hit in the instruction cache is a miss. -/
def icacheBottleneck (weight : Latency) : Bottleneck :=
  if weight = icacheHitLatency then .base else .icacheMiss

/-- An access that takes longer than a hit in the data cache is a miss. -/
def dcacheBottleneck (weight : Latency) : Bottleneck :=
  if weight = dcacheIntLatency then .base else .dcacheMiss

def fromF1ToF2f (inst : RiscvInstruction) (f1 f2f : Vertex) : DegM Unit :=
  let weight := delay inst.fetchCacheLine inst.processCacheCompletion
  addEdge f1 f2f weight 0 (icacheBottleneck weight)

def fromF2fToD (inst : RiscvInstruction) (f2f d : Vertex) : DegM Unit :=
  addEdge f2f d (delay inst.fetch inst.decode) 0 .base

def fromF1ToF2 (inst : RiscvInstruction) (f1 f2 : Vertex) : DegM Unit :=
  let weight := delay inst.fetchCacheLine inst.processCacheCompletion
  addEdge f1 f2 weight 0 (icacheBottleneck weight)

def fromF2ToF (inst : RiscvInstruction) (f2 f : Vertex) : DegM Unit :=
  addEdge f2 f (delay inst.processCacheCompletion inst.fetch) 0 .base

def fromFToD (inst : RiscvInstruction) (f d : Vertex) : DegM Unit :=
  addEdge f d (delay inst.fetch inst.decode) 0 .base

def fromDToR (inst : RiscvInstruction) (d r : Vertex) : DegM Unit :=
  addEdge d r (delay inst.decode inst.rename) 0 .base

def fromRToDi (inst : RiscvInstruction) (r di : Vertex) : DegM Unit :=
  addEdge r di (delay inst.rename inst.issue) 0 .base

def fromRToDs (inst : RiscvInstruction) (r ds : Vertex) : DegM Unit :=
  addEdge r ds (delay inst.rename inst.dispatch) 0 .base

def fromDsToI (inst : RiscvInstruction) (ds i : Vertex) : DegM Unit :=
  addEdge ds i (delay inst.dispatch inst.issue) 0 .base

def fromDiToMp (inst : RiscvInstruction) (di mp : Vertex) : DegM Unit :=
  addEdge di mp (delay inst.dispatch inst.memory) 0 .base

def fromIToMp (inst : RiscvInstruction) (i mp : Vertex) : DegM Unit :=
  addEdge i mp (delay inst.issue inst.complete) 0 .base

def fromDiToM (inst : RiscvInstruction) (di m : Vertex) : DegM Unit :=
  addEdge di m (delay inst.issue inst.memory) 0 .base

def fromMToP (inst : RiscvInstruction) (m p : Vertex) : DegM Unit :=
  let weight := delay inst.memory inst.completeMemory
  addEdge m p weight 0 (dcacheBottleneck weight)

def fromIToM (inst : RiscvInstruction) (i m : Vertex) : DegM Unit :=
  addEdge i m (delay inst.issue inst.memory) 0 .base

def fromDiToP (inst : RiscvInstruction) (di p : Vertex) : DegM Unit :=
  addEdge di p (delay inst.issue inst.complete) 0 .base

def fromIToP (inst : RiscvInstruction) (i p : Vertex) : DegM Unit :=
  addEdge i p (delay inst.issue inst.complete) 0 .base

def fromMpToC (inst : RiscvInstruction) (mp c : Vertex) : DegM Unit :=
  addEdge mp c (delay inst.complete inst.commit) 0 .base

def fromPToC (inst : RiscvInstruction) (p c : Vertex) : DegM Unit :=
  addEdge p c (delay inst.complete inst.commit) 0 .base

/-- `F1 → F2/F → D` or `F1 → F2 → F → D`. -/
def modelFetch (inst : RiscvInstruction) : DegM Unit := do
  if inst.processCacheCompletion = inst.fetch then
    let f1 ← mkVertex .f1 inst
    let f2f ← mkVertex .f2f inst
    let d ← mkVertex .d inst
    fromF1ToF2f inst f1 f2f
    fromF2fToD inst f2f d
  else
    let f1 ← mkVertex .f1 inst
    let f2 ← mkVertex .f2 inst
    let f ← mkVertex .f inst
    let d ← mkVertex .d inst
    fromF1ToF2 inst f1 f2
    fromF2ToF inst f2 f
    fromFToD inst f d

/-- `D → R`. -/
def modelRename (inst : RiscvInstruction) : DegM Unit := do
  let d ← mkVertex .d inst
  let r ← mkVertex .r inst
  fromDToR inst d r

/-- `R → D/I` or `R → D → I`. -/
def modelIssue (inst : RiscvInstruction) : DegM Unit := do
  if inst.dispatch = inst.issue then
    let r ← mkVertex .r inst
    let di ← mkVertex .di inst
    fromRToDi inst r di
  else
    let r ← mkVertex .r inst
    let ds ← mkVertex .ds inst
    let i ← mkVertex .i inst
    fromRToDs inst r ds
    fromDsToI inst ds i

/-- `DI → MP → C`. -/
def modelDiMpC (inst : RiscvInstruction) : DegM Unit := do
  let di ← mkVertex .di inst
  let mp ← mkVertex .mp inst
  let c ← mkVertex .c inst
  fromDiToMp inst di mp
  fromMpToC inst mp c

/-- `I → MP → C`. -/
def modelIMpC (inst : RiscvInstruction) : DegM Unit := do
  let i ← mkVertex .i inst
  let mp ← mkVertex .mp inst
  let c ← mkVertex .c inst
  fromIToMp inst i mp
  fromMpToC inst mp c

/-- From issue to commit: a memory instruction passes `M` and `P`, or `MP` if they coincide. -/
def modelExecute (inst : RiscvInstruction) : DegM Unit := do
  if inst.isMem then
    if inst.isStore then
      if inst.dispatch = inst.issue then
        modelDiMpC inst
      else
        modelIMpC inst
    else
      if inst.dispatch = inst.issue then
        if inst.memory = inst.completeMemory then
          modelDiMpC inst
        else
          let di ← mkVertex .di inst
          let m ← mkVertex .m inst
          let p ← mkVertex .p inst
          let c ← mkVertex .c inst
          fromDiToM inst di m
          fromMToP inst m p
          fromPToC inst p c
      else
        if inst.memory = inst.completeMemory then
          modelIMpC inst
        else
          let i ← mkVertex .i inst
          let m ← mkVertex .m inst
          let p ← mkVertex .p inst
          let c ← mkVertex .c inst
          fromIToM inst i m
          fromMToP inst m p
          fromPToC inst p c
  else
    if inst.dispatch = inst.issue then
      let di ← mkVertex .di inst
      let p ← mkVertex .p inst
      let c ← mkVertex .c inst
      fromDiToP inst di p
      fromPToC inst p c
    else
      let i ← mkVertex .i inst
      let p ← mkVertex .p inst
      let c ← mkVertex .c inst
      fromIToP inst i p
      fromPToC inst p c

def model (inst : RiscvInstruction) : DegM Unit := do
  modelFetch inst
  modelRename inst
  modelIssue inst
  modelExecute inst

/-! ### Edges between instructions -/

def fromPToF1 (p f1 : Vertex) : DegM Unit :=
  let weight := delay p.inst.complete f1.inst.fetchCacheLine
  addEdge p f1 weight weight .bpMiss

/-- An edge between two renaming stages. -/
def fromRToR (bottleneck : Bottleneck) (r' r : Vertex) : DegM Unit :=
  let weight := delay r'.inst.rename r.inst.rename
  addEdge r' r weight weight bottleneck

def fromRToRRob (r' r : Vertex) : DegM Unit := fromRToR .rob r' r

def fromRToRLq (r' r : Vertex) : DegM Unit := fromRToR .lq r' r

def fromRToRSq (r' r : Vertex) : DegM Unit := fromRToR .sq r' r

def fromRToRRf (r' r : Vertex) (bottleneck : Bottleneck) : DegM Unit := fromRToR bottleneck r' r

def fromRToRIq (r' r : Vertex) : DegM Unit := fromRToR .iq r' r

/-- An edge between two issue stages. -/
def fromIToI (bottleneck : Latency → Bottleneck) (i' i : Vertex) : DegM Unit :=
  let weight := delay i'.inst.issue i.inst.issue
  addEdge i' i weight weight (bottleneck weight)

def fromIToIFu (i' i : Vertex) (bottleneck : Bottleneck) : DegM Unit :=
  fromIToI (fun _ => bottleneck) i' i

def fromIToIDcache (i' i : Vertex) : DegM Unit :=
  fromIToI dcacheBottleneck i' i

def fromIToIRaw (i' i : Vertex) : DegM Unit :=
  fromIToI (fun _ => .raw) i' i

/-! ### Dependences -/

def rawDep (tgt src : RiscvInstruction) : Except DegError Bool :=
  if src.instSeq < tgt.instSeq then .ok (tgt.src.contains src.dst)
  else .error (.order tgt.instSeq src.instSeq)

def warDep (tgt src : RiscvInstruction) : Except DegError Bool :=
  if src.instSeq < tgt.instSeq then .ok (src.src.contains tgt.dst)
  else .error (.order tgt.instSeq src.instSeq)

def wrwDep (tgt src : RiscvInstruction) : Bool := tgt.dst = src.dst

/-- The newest instruction of the window with a register conflict. -/
def findRfDep (inst : RiscvInstruction) :
    List RiscvInstruction → Except DegError (Option RiscvInstruction)
  | []           => .ok none
  | prev :: rest => do
    if (← warDep inst prev) || wrwDep inst prev then
      return some prev
    else
      findRfDep inst rest

/-- The functional unit an instruction waits for. -/
def fuBottleneck (inst : RiscvInstruction) : Option Bottleneck :=
  if inst.useIntAlu then some .intALU
  else if inst.useIntMultDiv then some .intMultDiv
  else if inst.useFpAlu then some .fpAlu
  else if inst.useFpMultDiv then some .fpMultDiv
  else if inst.useRdWrPort then some .rdWrPort
  else none

/-- The cycle in which the result of an instruction is available. -/
def resultTick (inst : RiscvInstruction) : UInt64 :=
  if inst.isLoad then inst.completeMemory else inst.complete

/-- The inner loop of the search for a producer. It advances `i` but never `prev`; `k` counts the
iterations that are left. -/
def rawInner (inst prev : RiscvInstruction) (size : ℕ) :
    ℕ → ℕ → UInt64 → Option RiscvInstruction →
      Except DegError (ℕ × UInt64 × Option RiscvInstruction)
  | 0,     i, t, dep => .ok (i, t, dep)
  | k + 1, i, t, dep =>
    if i < size then do
      if (← rawDep inst prev) && t < resultTick prev then
        rawInner inst prev size k (i + 1) (resultTick prev) (some prev)
      else
        rawInner inst prev size k (i + 1) t dep
    else
      .ok (i, t, dep)

/-- The outer loop of the search for a producer. Every iteration advances `i`. -/
def rawOuter (inst : RiscvInstruction) (const : ℕ) (window : List RiscvInstruction) :
    ℕ → ℕ → UInt64 → Option RiscvInstruction → Except DegError (Option RiscvInstruction)
  | 0,     _, _, dep => .ok dep
  | n + 1, i, t, dep =>
    match window[i]? with
    | none      => .ok dep
    | some prev => do
      let (i, t, dep) ←
        if ← rawDep inst prev then rawInner inst prev window.length const i t dep
        else pure (i, t, dep)
      if dep.isSome then
        return dep
      else
        rawOuter inst const window n (i + 1) t dep

/-- The default value of `CONST`. -/
def rawConst : ℕ := 50

/-! ### The dependences of an instruction

The dependences ask for vertices by instruction and stage. The lookup is a parameter of their code,
so that one can put a lookup in its place that checks its answers. -/

section Via

variable (lookup : RiscvInstruction → VertexType → DegM Vertex) (inst : RiscvInstruction)

/-- A control instruction that completes before the next fetch starts was mispredicted. -/
def missBpVia : DegM Unit := do
  match (← Exec.get).instWindow with
  | []        => Exec.throw .outOfBounds
  | prev :: _ =>
    if prev.isControl ∧ prev.complete < inst.fetchCacheLine then
      let p ← lookup prev .p
      let f1 ← lookup inst .f1
      fromPToF1 p f1

/-- Connect the renaming stage of the newest instruction of the window that meets `dep`. -/
def connectRenameVia (dep : RiscvInstruction → Bool) (connect : Vertex → Vertex → DegM Unit) :
    DegM Unit := do
  match (← Exec.get).instWindow.find? dep with
  | some prev =>
    let r' ← lookup prev .r
    let r ← lookup inst .r
    connect r' r
  | none      => return ()

def robVia : DegM Unit := do
  if inst.blockFromRob ≠ 0 then
    connectRenameVia lookup inst (fun prev => prev.rob = inst.rob) fromRToRRob

def lqVia : DegM Unit := do
  if inst.blockFromLq ≠ 0 ∧ inst.isLoad then
    connectRenameVia lookup inst (fun prev => prev.lq = inst.lq) fromRToRLq

def sqVia : DegM Unit := do
  if inst.blockFromSq ≠ 0 ∧ inst.isStore then
    connectRenameVia lookup inst (fun prev => prev.sq = inst.sq) fromRToRSq

def rfVia : DegM Unit := do
  if inst.blockFromRf ≠ 0 then
    match ← Exec.ofExcept (findRfDep inst (← Exec.get).instWindow) with
    | none     => return ()
    | some dep =>
      let r' ← lookup dep .r
      let r ← lookup inst .r
      if inst.useIntRf then
        fromRToRRf r' r .intRF
      else if inst.useFpRf then
        fromRToRRf r' r .fpRF

def iqVia : DegM Unit := do
  if inst.blockFromIq ≠ 0 then
    connectRenameVia lookup inst (fun prev => prev.iq = inst.iq) fromRToRIq

/-- The loop over the window that looks for the holder of the functional unit. -/
def fuLoopVia : List RiscvInstruction → DegM Unit
  | []           => return ()
  | prev :: rest => do
    if prev.fu = inst.fu ∧ prev.issue < inst.issue ∧
        (inst.isLoad ∧ inst.issue ≤ prev.completeMemory ∨ inst.issue ≤ prev.complete) then
      let i' ← lookup prev .i
      let i ← lookup inst .i
      match fuBottleneck inst with
      | some bottleneck => fromIToIFu i' i bottleneck
      | none            => fuLoopVia rest
    else
      fuLoopVia rest

def fuVia : DegM Unit := do
  if inst.insertReadyList < inst.issue then
    fuLoopVia lookup inst (← Exec.get).instWindow

def rawVia (const : ℕ) : DegM Unit := do
  if inst.dispatch < inst.insertReadyList then
    let window := (← Exec.get).instWindow
    match ← Exec.ofExcept (rawOuter inst const window (window.length + 1) 0 0 none) with
    | none     => return ()
    | some dep =>
      let i' ← lookup dep .i
      let i ← lookup inst .i
      if dep.isLoad then
        fromIToIDcache i' i
      else
        fromIToIRaw i' i

def interactionImplVia : DegM Unit := do
  if (← Exec.get).instWindow = [] then
    return ()
  missBpVia lookup inst
  robVia lookup inst
  lqVia lookup inst
  sqVia lookup inst
  rfVia lookup inst
  iqVia lookup inst
  fuVia lookup inst
  rawVia lookup inst rawConst

def interactionVia : DegM Unit := do
  interactionImplVia lookup inst
  Exec.modify fun s => { s with instWindow := inst :: s.instWindow }

end Via

def modelMissBpInteractionImpl (inst : RiscvInstruction) : DegM Unit :=
  missBpVia getVertexFromInst inst

def modelRobInteractionImpl (inst : RiscvInstruction) : DegM Unit := robVia getVertexFromInst inst

def modelLqInteractionImpl (inst : RiscvInstruction) : DegM Unit := lqVia getVertexFromInst inst

def modelSqInteractionImpl (inst : RiscvInstruction) : DegM Unit := sqVia getVertexFromInst inst

def modelRfInteractionImpl (inst : RiscvInstruction) : DegM Unit := rfVia getVertexFromInst inst

def modelIqInteractionImpl (inst : RiscvInstruction) : DegM Unit := iqVia getVertexFromInst inst

def modelFuInteractionImpl (inst : RiscvInstruction) : DegM Unit := fuVia getVertexFromInst inst

def modelRawInteractionImpl (inst : RiscvInstruction) (const : ℕ) : DegM Unit :=
  rawVia getVertexFromInst inst const

def modelInteractionImpl (inst : RiscvInstruction) : DegM Unit :=
  interactionImplVia getVertexFromInst inst

def modelInteraction (inst : RiscvInstruction) : DegM Unit := interactionVia getVertexFromInst inst

end ArchExplorer.Deg
