import Mathlib.Data.List.AList
import ArchExplorer.Lib.Exec
import ArchExplorer.Lib.Label
import ArchExplorer.Lib.OrdMap
import ArchExplorer.Deg.Instruction
import ArchExplorer.Deg.Bottleneck

/-!
# The dependence graph and its elementary operations

Vertices are stages of instructions. The graph is kept twice: `graph` maps a vertex to its outgoing
edges and `pred` maps a vertex to its parents. Reading either map through its subscript creates a
missing entry, which the operations below reproduce.
-/

namespace ArchExplorer.Deg

open ArchExplorer.Lib

/-! ### Vertices and edges -/

/-- The stages of an instruction; `f2f`, `di` and `mp` are two stages that happen in one cycle. -/
inductive VertexType where
  | f1
  | f2
  | f
  | f2f
  | d
  | r
  | ds
  | i
  | di
  | m
  | p
  | mp
  | c
  deriving DecidableEq, Repr

namespace VertexType

/-- The number of a stage, which orders the vertices of the graph. -/
def num : VertexType → ℕ
  | f1  => 0
  | f2  => 1
  | f   => 2
  | f2f => 3
  | d   => 4
  | r   => 5
  | ds  => 6
  | i   => 7
  | di  => 8
  | m   => 9
  | p   => 10
  | mp  => 11
  | c   => 12

/-- The entry of a stage in `name_of_vertex_type`. -/
def name : VertexType → String
  | f1  => "F1"
  | f2  => "F2"
  | f   => "F"
  | f2f => "F2F"
  | d   => "D"
  | r   => "R"
  | ds  => "DS"
  | i   => "I"
  | di  => "DI"
  | m   => "M"
  | p   => "P"
  | mp  => "MP"
  | c   => "C"

lemma num_injective : Function.Injective num := by
  intro s t h
  cases s <;> cases t <;> first | rfl | cases h

lemma name_injective : Function.Injective name := by
  intro s t h
  cases s <;> cases t <;> first | rfl | exact absurd h (by decide)

lemma num_lt (t : VertexType) : t.num < 13 := by
  cases t <;> decide

end VertexType

/-- The assertion that `set_timing` makes on a merged stage: its two stages coincide. -/
def TimingOk (type : VertexType) (inst : RiscvInstruction) : Prop :=
  match type with
  | .f2f => inst.processCacheCompletion = inst.fetch
  | .di  => inst.dispatch = inst.issue
  | .mp  => inst.isLoad = true → inst.memory = inst.completeMemory
  | _    => True

instance (type : VertexType) (inst : RiscvInstruction) : Decidable (TimingOk type inst) := by
  unfold TimingOk
  cases type <;> dsimp only <;> infer_instance

/-- A stage of an instruction. A merged stage whose stages differ cannot be built. -/
@[ext]
structure Vertex where
  type : VertexType
  instSeq : ℕ
  inst : RiscvInstruction
  timingOk : TimingOk type inst
  deriving DecidableEq

namespace Vertex

/-- The time of a vertex, as `set_timing` chooses it. -/
def timing (v : Vertex) : UInt64 :=
  match v.type with
  | .f1  => v.inst.fetchCacheLine
  | .f2  => v.inst.processCacheCompletion
  | .f   => v.inst.fetch
  | .f2f => v.inst.fetch
  | .d   => v.inst.decode
  | .r   => v.inst.rename
  | .ds  => v.inst.dispatch
  | .i   => v.inst.issue
  | .di  => v.inst.issue
  | .m   => v.inst.memory
  | .p   => if v.inst.isLoad then v.inst.completeMemory else v.inst.complete
  | .mp  => v.inst.memory
  | .c   => v.inst.commit

/-- The name of a vertex in the report. -/
def repr (v : Vertex) : String := toString v.instSeq ++ "-" ++ v.type.name

end Vertex

/-- `VertexCompare`: by stage, then by instruction. -/
def vertexCompare : Vertex → Vertex → Ordering :=
  compareLex (compareOn fun v => v.type.num) (compareOn fun v => v.instSeq)

/-- `EdgeTimingCompare`: by time, then by instruction. -/
def edgeTimingCompare : Vertex → Vertex → Ordering :=
  compareLex (compareOn fun v => v.timing) (compareOn fun v => v.instSeq)

/-- `EdgeInstSeqCompare`: by instruction, then by time. -/
def edgeInstSeqCompare : Vertex → Vertex → Ordering :=
  compareLex (compareOn fun v => v.instSeq) (compareOn fun v => v.timing)

instance : Std.TransCmp vertexCompare :=
  inferInstanceAs (Std.TransCmp (compareLex (compareOn _) (compareOn _)))

instance : Std.TransCmp edgeTimingCompare :=
  inferInstanceAs (Std.TransCmp (compareLex (compareOn _) (compareOn _)))

instance : Std.TransCmp edgeInstSeqCompare :=
  inferInstanceAs (Std.TransCmp (compareLex (compareOn _) (compareOn _)))

lemma vertexCompare_eq_iff {u v : Vertex} :
    vertexCompare u v = .eq ↔ u.type = v.type ∧ u.instSeq = v.instSeq := by
  simp only [vertexCompare, compareLex, compareOn, Ordering.then_eq_eq, Nat.compare_eq_eq,
    VertexType.num_injective.eq_iff]

/-- The delay from one time stamp to a later one, computed on machine words. -/
def delay (early late : UInt64) : Latency := (late - early).toNat

/-- An edge to `child`: `weight` is the true delay, `cost` is what the critical path counts. -/
structure OutgoingEdge where
  child : Vertex
  weight : Latency
  cost : Latency
  bottleneck : Bottleneck
  deriving DecidableEq

structure IngoingEdge where
  parent : Vertex
  deriving DecidableEq

/-! ### The state and its errors -/

/-- The ways in which the builder stops: failed assertions, `ERROR` exits, accesses outside of a
container, and loops that were not given enough fuel. -/
inductive DegError where
  | timing (type : VertexType) (instSeq : ℕ) (inst : String)
  | order (tgt src : ℕ)
  | noKey (key inst : String)
  | noEdge (parent child : String)
  | indegreeMap (size : ℕ)
  | sortSize (ret graph : ℕ)
  | sourceVertex (instSeq : ℕ) (type : VertexType)
  | noSink (instSeq : ℕ)
  | noBottleneck (name : String)
  | goldenLength (golden length : Latency)
  | outOfBounds
  | outOfFuel
  deriving DecidableEq, Repr

/-- The graph under construction. The newest instruction is at the front of the window. -/
structure O3Graph where
  instStream : RiscvInstructionStream
  graph : ListMap Vertex OutgoingEdge vertexCompare := ∅
  pred : ListMap Vertex IngoingEdge vertexCompare := ∅
  instToVertex : AList (fun _ : String => Vertex) := ∅
  instWindow : List RiscvInstruction := []

/-- Code of the graph builder. -/
abbrev DegM := Exec DegError O3Graph

namespace O3Graph

/-- The graph before the first instruction is read. -/
def init (trace : List TraceLine) : O3Graph := { instStream := .ofTrace trace }

/-- The outgoing edges of `v`. -/
def outgoing (s : O3Graph) (v : Vertex) : List OutgoingEdge := s.graph.entry v

/-- The ingoing edges of `v`. -/
def ingoing (s : O3Graph) (v : Vertex) : List IngoingEdge := s.pred.entry v

/-- The children of `v`, one for each edge. -/
def children (s : O3Graph) (v : Vertex) : List Vertex := (s.outgoing v).map (·.child)

/-- The parents of `v`, one for each edge. -/
def parents (s : O3Graph) (v : Vertex) : List Vertex := (s.ingoing v).map (·.parent)

def touchGraph (s : O3Graph) (v : Vertex) : O3Graph := { s with graph := s.graph.touch v }

def touchPred (s : O3Graph) (v : Vertex) : O3Graph := { s with pred := s.pred.touch v }

end O3Graph

/-- Read `graph[v]`. -/
def readGraph (v : Vertex) : DegM (List OutgoingEdge) :=
  Exec.modifyGet fun s => (s.outgoing v, s.touchGraph v)

/-- Read `pred[v]`. -/
def readPred (v : Vertex) : DegM (List IngoingEdge) :=
  Exec.modifyGet fun s => (s.ingoing v, s.touchPred v)

/-- The number of the last instruction that was read. -/
def getInstSeq : DegM ℕ := do
  return (← Exec.get).instStream.instSeq

/-- `Vertex(type, inst_stream->get_inst_seq(), inst)`. -/
def mkVertex (type : VertexType) (inst : RiscvInstruction) : DegM Vertex := do
  let instSeq ← getInstSeq
  if h : TimingOk type inst then
    return ⟨type, instSeq, inst, h⟩
  else
    Exec.throw (.timing type inst.instSeq inst.inst)

/-! ### Edges -/

def hashInst (inst : RiscvInstruction) (type : VertexType) : String :=
  toString inst.instSeq ++ "-" ++ type.name

lemma hashInst_inj {i j : RiscvInstruction} {t t' : VertexType}
    (h : hashInst i t = hashInst j t') : i.instSeq = j.instSeq ∧ t = t' := by
  obtain ⟨hseq, hname⟩ := label_inj (by cases t <;> decide) h
  exact ⟨hseq, VertexType.name_injective hname⟩

namespace O3Graph

/-- `add_edge(parent, edge)`. -/
def addOutgoingEdge (s : O3Graph) (parent : Vertex) (edge : OutgoingEdge) : O3Graph :=
  { s with
    graph := s.graph.push parent edge
    instToVertex := s.instToVertex.insert (hashInst parent.inst parent.type) parent }

/-- `add_edge(child, IngoingEdge(parent))`. -/
def addIngoingEdge (s : O3Graph) (child : Vertex) (edge : IngoingEdge) : O3Graph :=
  { s with pred := s.pred.push child edge }

/-- Enter an edge into both maps. -/
def connect (s : O3Graph) (parent : Vertex) (edge : OutgoingEdge) : O3Graph :=
  (s.addOutgoingEdge parent edge).addIngoingEdge edge.child ⟨parent⟩

end O3Graph

/-- The two calls of `add_edge` with which every edge is made. -/
def addEdge (parent child : Vertex) (weight cost : Latency) (bottleneck : Bottleneck) :
    DegM Unit :=
  Exec.modify fun s => s.connect parent ⟨child, weight, cost, bottleneck⟩

def ifExistEdge (parent child : Vertex) : DegM Bool := do
  return (← readGraph parent).any (·.child = child)

/-- The first edge from `parent` to `child`. -/
def getOutgoingEdge (parent child : Vertex) : DegM OutgoingEdge := do
  match (← readGraph parent).find? (·.child = child) with
  | some edge => return edge
  | none      =>
    Exec.throw (.noEdge (hashInst parent.inst parent.type) (hashInst child.inst child.type))

/-- The key under which a stage is looked up when it has no vertex of its own. -/
def mergedKey (inst : RiscvInstruction) : VertexType → String
  | .f2 | .f => hashInst inst .f2f
  | .ds | .i => hashInst inst .di
  | .m  | .p => hashInst inst .mp
  | _        => ""

def getVertexFromInst (inst : RiscvInstruction) (type : VertexType) : DegM Vertex := do
  let s ← Exec.get
  match s.instToVertex.lookup (hashInst inst type) with
  | some v => return v
  | none   =>
    match s.instToVertex.lookup (mergedKey inst type) with
    | some v => return v
    | none   => Exec.throw (.noKey (mergedKey inst type) inst.inst)

def addVirtualEdge (parent child : Vertex) : DegM Unit := do
  if parent = child then
    return ()
  if ← ifExistEdge parent child then
    return ()
  addEdge parent child (delay parent.timing child.timing) 0 .virtual

end ArchExplorer.Deg
