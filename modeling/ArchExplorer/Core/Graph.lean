import ArchExplorer.Lib.DiGraph
import ArchExplorer.Lib.Exec
import ArchExplorer.Core.Instruction

/-!
# The dependence graph of the Python analysis

Nodes are named by an instruction and a pipeline stage. The state of the analysis is the graph
together with the counters of `Stats` and the instructions that were modelled so far.
-/

namespace ArchExplorer.Core

open ArchExplorer.Lib

/-! ### Bottlenecks -/

/-- The bottleneck classes, in the order in which they are registered. -/
inductive Bottleneck where
  | base
  | icacheMiss
  | dcacheMiss
  | bpMiss
  | rob
  | lq
  | sq
  | intRF
  | fpRF
  | iq
  | intAlu
  | intMultDiv
  | fpAlu
  | fpMultDiv
  | rdWrPort
  | raw
  | virtual
  deriving DecidableEq, Repr

def Bottleneck.name : Bottleneck → String
  | base       => "Base"
  | icacheMiss => "I-cache Miss"
  | dcacheMiss => "D-cache Miss"
  | bpMiss     => "BP Miss"
  | rob        => "ROB"
  | lq         => "LQ"
  | sq         => "SQ"
  | intRF      => "INT RF"
  | fpRF       => "FP RF"
  | iq         => "IQ"
  | intAlu     => "IntAlu"
  | intMultDiv => "IntMultDiv"
  | fpAlu      => "FpAlu"
  | fpMultDiv  => "FpMultDiv"
  | rdWrPort   => "RdWrPort"
  | raw        => "RAW"
  | virtual    => "Virtual"

/-- The names that `register_bottleneck` collects. -/
def bottleneck : List String :=
  [Bottleneck.base, .icacheMiss, .dcacheMiss, .bpMiss, .rob, .lq, .sq, .intRF, .fpRF, .iq, .intAlu,
    .intMultDiv, .fpAlu, .fpMultDiv, .rdWrPort, .raw, .virtual].map Bottleneck.name

lemma Bottleneck.name_mem (b : Bottleneck) : b.name ∈ bottleneck := by
  cases b <;> decide

/-! ### Nodes and edges -/

inductive PipelineStage where
  | f1
  | f2
  | fetch
  | f2f
  | decode
  | rename
  | dispatch
  | issue
  | di
  | memory
  | complete
  | mp
  | commit
  deriving DecidableEq, Repr

def PipelineStage.value : PipelineStage → String
  | f1       => "F1"
  | f2       => "F2"
  | fetch    => "F"
  | f2f      => "F2/F"
  | decode   => "D"
  | rename   => "R"
  | dispatch => "DS"
  | issue    => "I"
  | di       => "D/I"
  | memory   => "M"
  | complete => "P"
  | mp       => "M/P"
  | commit   => "C"

/-- The name of the node of the instruction `seq` in a stage. -/
def uniqueName (seq : ℕ) (stage : PipelineStage) : String :=
  toString seq ++ "-" ++ stage.value

def uniqueNameViaInst (inst : RiscvInstruction) (stage : PipelineStage) : String :=
  uniqueName inst.seq stage

/-- A node: its stage and the pair of its time stamp and its sequence number. -/
structure Node where
  stage : PipelineStage
  coordinate : ℤ × ℕ
  deriving DecidableEq, Repr

namespace Node

def timestamp (n : Node) : ℤ := n.coordinate.1

def seq (n : Node) : ℕ := n.coordinate.2

def name (n : Node) : String := uniqueName n.seq n.stage

/-- Equality of nodes in the source compares the coordinates and not the stage. -/
def eq (u v : Node) : Bool := u.seq = v.seq ∧ u.timestamp = v.timestamp

end Node

structure Edge where
  u : Node
  v : Node
  delay : ℤ
  cost : ℤ
  bottleneck : Bottleneck
  deriving DecidableEq, Repr

/-! ### The state of the analysis -/

/-- The exceptions that end the analysis. -/
inductive PyError where
  | keyError (msg : String)
  | indexError (msg : String)
  | valueError (msg : String)
  | nameError (msg : String)
  | assertionError (msg : String)
  | networkXUnfeasible
  /-- A loop did not end. -/
  | endless
  deriving DecidableEq, Repr

structure Graph where
  brCount : ℕ
  icacheAccessCount : ℕ
  dcacheAccessCount : ℕ
  bottleneck : Dict String ℤ
  graph : DiGraph String Node Edge
  /-- The instructions that were modelled, the newest one first. -/
  insts : List RiscvInstruction
  lastAccessIcache : ℤ
  criticalPath : Option (List String)

/-- A computation over the state that may raise an exception. -/
abbrev GraphM := Exec PyError Graph

def constructBottleneck : Dict String ℤ :=
  Core.bottleneck.foldl (fun d btnk => d.set btnk 0) .empty

namespace Graph

def init : Graph where
  brCount := 0
  icacheAccessCount := 0
  dcacheAccessCount := 0
  bottleneck := constructBottleneck
  graph := .empty
  insts := []
  lastAccessIcache := 0
  criticalPath := none

/-- The node stored under a name. -/
def node? (s : Graph) (name : String) : Option Node := (s.graph.nodes.get? name).join

def getNodeViaName (s : Graph) (name : String) : Except PyError Node :=
  match s.node? name with
  | some node => .ok node
  | none      => .error (.keyError ("name: " ++ name ++ " is not found."))

/-- The stage that replaces a stage when the two of them coincide in time. -/
def mergedStage : PipelineStage → PipelineStage
  | .fetch | .f2        => .f2f
  | .issue | .dispatch  => .di
  | .memory | .complete => .mp
  | stage               => stage

def getNodeViaInst (s : Graph) (inst : RiscvInstruction) (stage : PipelineStage) :
    Except PyError Node :=
  match s.node? (uniqueNameViaInst inst stage) with
  | some node => .ok node
  | none      => s.getNodeViaName (uniqueNameViaInst inst (mergedStage stage))

def getEdge (s : Graph) (u v : String) : Except PyError Edge :=
  match s.graph.edges.get? (u, v) with
  | some edge => .ok edge
  | none      => .error (.keyError ("edge: " ++ u ++ " -> " ++ v ++ " is not found."))

/-- The first fetch of the trace. -/
def sourceNode (s : Graph) : Except PyError Node :=
  match s.insts.getLast? with
  | some inst => s.getNodeViaInst inst .f1
  | none      => .error (.indexError "list index out of range")

/-- The last commit of the trace. -/
def sinkNode (s : Graph) : Except PyError Node :=
  match s.insts.head? with
  | some inst => s.getNodeViaInst inst .commit
  | none      => .error (.indexError "list index out of range")

def ifExistEdge (s : Graph) (u v : Node) : Bool := s.graph.Adj u.name v.name

end Graph

def getNodeViaInst (inst : RiscvInstruction) (stage : PipelineStage) : GraphM Node := do
  Exec.ofExcept ((← Exec.get).getNodeViaInst inst stage)

def addNode (node : Node) : GraphM Unit :=
  Exec.modify fun s => { s with graph := s.graph.addNode node.name node }

def addNodes (nodes : List Node) : GraphM Unit := forM nodes addNode

def addEdge (edge : Edge) : GraphM Unit :=
  Exec.modify fun s => { s with graph := s.graph.addEdge edge.u.name edge.v.name edge }

def addEdges (edges : List Edge) : GraphM Unit := forM edges addEdge

def virtualEdge (u v : Node) : Edge := ⟨u, v, v.timestamp - u.timestamp, 0, .virtual⟩

/-- Connect two nodes by a virtual edge unless they are equal or connected. -/
def addVirtualEdge (u v : Node) : GraphM Unit := do
  if u.eq v || (← Exec.get).ifExistEdge u v then
    return ()
  else
    addEdge (virtualEdge u v)

end ArchExplorer.Core
