import ArchExplorer.Core.Model

/-!
# Analysis of a trace

Worker threads add virtual edges between the dependences of different instructions. Each thread is
given by the calls of `addVirtualEdge` that it makes, since these do not depend on the edges that
were added before. The critical path is a path of maximal cost, extended to the first fetch and the
last commit.
-/

namespace ArchExplorer.Core

open ArchExplorer.Lib

/-! ### The graph algorithms of the library -/

/-- The documented behaviour of the functions of `networkx` that the analysis calls. -/
structure Networkx where
  topologicalSort : DiGraph String Node Edge → Option (List String)
  shortestPath : DiGraph String Node Edge → String → String → Option (List String)
  /-- A graph without cycles is sorted. -/
  topologicalSort_spec : ∀ g, g.Acyclic →
    ∃ l, topologicalSort g = some l ∧ g.IsTopologicalOrder l
  /-- A path that is returned is a shortest one. -/
  shortestPath_some : ∀ {g u v p}, shortestPath g u v = some p → g.IsShortestPath u v p
  /-- The exception `NetworkXNoPath` is raised only if the target cannot be reached. -/
  shortestPath_none : ∀ {g u v}, u ∈ g.nodes.keys → v ∈ g.nodes.keys →
    shortestPath g u v = none → ∀ p, ¬ g.IsPath u v p

/-! ### The induced graph -/

/-- A call of `addVirtualEdge`. -/
abbrev Call := Node × Node

/-- The edges between different instructions. -/
def Graph.skewEdges (s : Graph) : List Edge :=
  (s.graph.edgeList.filterMap s.graph.edges.get?).filter fun edge => edge.u.seq ≠ edge.v.seq

/-- Connect `v` to the next edge of the list that starts later in the program and in time. -/
def viaSeqFrom (rest : List Edge) (v : Node) : List Call :=
  match rest.find? fun edge => v.seq < edge.u.seq ∧ v.timestamp ≤ edge.u.timestamp with
  | some edge => [(v, edge.u)]
  | none      => []

/-- The worker for the entry `idx` of the edges sorted by sequence number. -/
def addVirtualEdgeViaSeqV2Impl (idx : ℕ) (edge : Edge) (skewEdges : List Edge) : List Call :=
  viaSeqFrom (skewEdges.drop (idx + 1)) edge.u ++ viaSeqFrom (skewEdges.drop (idx + 1)) edge.v

/-- The calls for the entries with the time stamp that was found, up to the first other entry. -/
def viaSameTimestamp (earlyTimestamp : ℤ) (v : Node) (rest : List Edge) : List Call :=
  (rest.takeWhile fun edge => v.seq < edge.u.seq ∧ earlyTimestamp = edge.u.timestamp).map
    fun edge => (v, edge.u)

/-- Connect `v` to the next entries in time. If there are none, the second loop starts one entry
further on, with the time stamp of `v`. -/
def viaTimestampFrom (rest : List Edge) (v : Node) : List Call :=
  match rest.dropWhile fun edge => ¬ (v.timestamp ≤ edge.u.timestamp ∧ v.seq < edge.u.seq) with
  | edge :: rest' => (v, edge.u) :: viaSameTimestamp edge.u.timestamp v rest'
  | []            => viaSameTimestamp v.timestamp v (rest.drop 1)

/-- The worker for the entry `idx` of the edges sorted by time stamp. -/
def addVirtualEdgeViaTimestampImpl (idx : ℕ) (edge : Edge) (skewEdges : List Edge) : List Call :=
  viaTimestampFrom (skewEdges.drop (idx + 1)) edge.u ++
    viaTimestampFrom (skewEdges.drop (idx + 1)) edge.v

/-- A stable sort by an integer key. -/
def sortByKey (key : Edge → ℤ) (edges : List Edge) : List Edge :=
  edges.mergeSort fun a b => key a ≤ key b

/-- The workers that a pass starts, one for each edge. -/
def workers (impl : ℕ → Edge → List Edge → List Call) (skewEdges : List Edge) :
    List (List Call) :=
  skewEdges.zipIdx.map fun p => impl p.2 p.1 skewEdges

/-- What one pass does: the workers that it starts, its own calls, and the exception that ends its
thread, if any. -/
structure Pass where
  workers : List (List Call)
  calls : List Call
  error : Option PyError

/-- The calls that lead to the last commit. All edges with the key of the last one are connected, up
to the first other one. -/
def tailCalls (key : Node → ℤ) (sink : Node) (skewEdges : List Edge) :
    List Call × Option PyError :=
  match skewEdges.reverse with
  | []           => ([], some (.indexError "list index out of range"))
  | edge :: rest =>
    ((edge :: rest.takeWhile fun edge' => key edge'.v = key edge.v).map fun edge =>
      (edge.v, sink), none)

/-- The call that leads from the first fetch. -/
def seqHeadCalls (source : Node) (skewEdges : List Edge) : List Call :=
  match skewEdges.find? fun edge => source.seq < edge.u.seq with
  | some edge => [(source, edge.u)]
  | none      => []

def addVirtualEdgeViaSeqV2 (source sink : Node) (edges : List Edge) : Pass :=
  let skewEdges := sortByKey (fun edge => edge.u.seq) edges
  let tail := tailCalls (fun v => v.seq) sink skewEdges
  ⟨workers addVirtualEdgeViaSeqV2Impl skewEdges, seqHeadCalls source skewEdges ++ tail.1, tail.2⟩

/-- The head of the pass by time stamps. An edge that does not qualify makes the inner loop look at
the second edge; the variable `v` that it then uses is not defined. -/
def timestampHeadCalls (source : Node) (second : Option Edge) :
    List Edge → List Call × Option PyError
  | []           => ([], none)
  | edge :: rest =>
    if source.seq < edge.u.seq then
      ([(source, edge.u)], none)
    else
      match second with
      | some edge' =>
        if source.seq < edge'.u.seq ∧ source.timestamp = edge'.u.timestamp then
          ([], some (.nameError "name 'v' is not defined"))
        else
          timestampHeadCalls source second rest
      | none       => timestampHeadCalls source second rest

def addVirtualEdgeViaTimestamp (source sink : Node) (edges : List Edge) : Pass :=
  let skewEdges := sortByKey (fun edge => edge.u.timestamp) edges
  let workers := workers addVirtualEdgeViaTimestampImpl skewEdges
  match timestampHeadCalls source skewEdges[1]? skewEdges with
  | (head, some error) => ⟨workers, head, some error⟩
  | (head, none)       =>
    let tail := tailCalls Node.timestamp sink skewEdges
    ⟨workers, head ++ tail.1, tail.2⟩

/-- All calls of the threads that construct the induced graph. -/
def Graph.virtualEdgeCalls (s : Graph) : Except PyError (List Call) := do
  let source ← s.sourceNode
  let sink ← s.sinkNode
  let viaTimestamp := addVirtualEdgeViaTimestamp source sink s.skewEdges
  let viaSeq := addVirtualEdgeViaSeqV2 source sink s.skewEdges
  return viaTimestamp.workers.flatten ++ viaTimestamp.calls ++
    (viaSeq.workers.flatten ++ viaSeq.calls)

/-- The induced graph when the threads have made the given calls, in this order. -/
def constructInducedGraph (calls : List Call) : GraphM Unit :=
  forM calls fun call => addVirtualEdge call.1 call.2

/-! ### The longest path -/

/-- The distance of a node and the node before it. -/
abbrev Dist := Dict String (ℤ × String)

/-- Pairs of a length and a name are compared lexicographically. -/
def pairLt (p q : ℤ × String) : Bool := p.1 < q.1 ∨ p.1 = q.1 ∧ p.2 < q.2

/-- The first of the largest elements. -/
def maxFirst {α : Type} (lt : α → α → Bool) : List α → Option α
  | []      => none
  | a :: as => some (as.foldl (fun m b => if lt m b then b else m) a)

/-- The distances of a node over its predecessors. -/
def distPairs (s : Graph) (dist : Dist) (node : String) : List String →
    Except PyError (List (ℤ × String))
  | []      => .ok []
  | v :: vs => do
    let edge ← s.getEdge v node
    match dist.get? v with
    | some d => return (d.1 + edge.cost, v) :: (← distPairs s dist node vs)
    | none   => .error (.keyError v)

def updateDist (s : Graph) (dist : Dist) (node : String) : Except PyError Dist := do
  match maxFirst pairLt (← distPairs s dist node (s.graph.pred node)) with
  | some best => return dist.set node best
  | none      => return dist.set node (0, node)

/-- The path read off the distances, from its end. Without a cycle the loop ends within as many
iterations as there are nodes. -/
def backWalk (dist : Dist) : ℕ → ℤ → String → List String → Except PyError (List String)
  | 0,     _,      _,    _    => .error .endless
  | n + 1, length, node, path =>
    if 0 < length then
      match dist.get? node with
      | some d => backWalk dist n d.1 d.2 (node :: path)
      | none   => .error (.keyError node)
    else
      .ok path

def dagLongestPath (nx : Networkx) (s : Graph) : Except PyError (List String) := do
  match nx.topologicalSort s.graph with
  | none       => .error .networkXUnfeasible
  | some order =>
    let dist ← order.foldlM (updateDist s) .empty
    match maxFirst (fun a b => pairLt a.2 b.2) dist.items with
    | none              => .error (.valueError "max() arg is an empty sequence")
    | some (node, d, _) => backWalk dist (dist.items.length + 1) d node []

/-- Extend a path that starts with `first` to the first fetch. -/
def pathHead (nx : Networkx) (first : String) (path : List String) : GraphM (List String) := do
  let s ← Exec.get
  let source ← Exec.ofExcept s.sourceNode
  match nx.shortestPath s.graph source.name first with
  | some headPath => return headPath.reverse.tail.foldl (fun path n => n :: path) path
  | none          =>
    addVirtualEdge source (← Exec.ofExcept (s.getNodeViaName first))
    return source.name :: path

/-- Extend a path that ends with `last` to the last commit. -/
def pathTail (nx : Networkx) (last : String) (path : List String) : GraphM (List String) := do
  let s ← Exec.get
  let sink ← Exec.ofExcept s.sinkNode
  match nx.shortestPath s.graph last sink.name with
  | some tailPath => return path ++ tailPath.tail
  | none          =>
    addVirtualEdge (← Exec.ofExcept (s.getNodeViaName last)) sink
    return path ++ [sink.name]

def longestPathImpl (nx : Networkx) : GraphM (List String) := do
  let path ← Exec.ofExcept (dagLongestPath nx (← Exec.get))
  match path.head? with
  | none       => Exec.throw (.indexError "list index out of range")
  | some first =>
    let path ← pathHead nx first path
    match path.getLast? with
    | none      => Exec.throw (.indexError "list index out of range")
    | some last => pathTail nx last path

/-- Charge the delays of the edges of a path to their bottlenecks. -/
def accumulate : List String → GraphM Unit
  | u :: v :: rest => do
    let s ← Exec.get
    let edge ← Exec.ofExcept (s.getEdge u v)
    match s.bottleneck.get? edge.bottleneck.name with
    | some d =>
      Exec.modify fun s =>
        { s with bottleneck := s.bottleneck.set edge.bottleneck.name (d + edge.delay) }
      accumulate (v :: rest)
    | none   => Exec.throw (.keyError edge.bottleneck.name)
  | _              => return ()

def longestPath (nx : Networkx) : GraphM Unit := do
  let path ← longestPathImpl nx
  Exec.modify fun s => { s with criticalPath := some path }
  accumulate path

/-- `calls` are the calls that the threads of the induced graph have made when they are joined. -/
def constructCriticalPathV2 (nx : Networkx) (calls : List Call) : GraphM Unit := do
  constructInducedGraph calls
  longestPath nx

/-! ### The report -/

/-- The lines for the edges of a path. -/
def reportEdges (s : Graph) : List String → Except PyError String
  | u :: v :: rest => do
    let edge ← s.getEdge u v
    let lines ← reportEdges s (v :: rest)
    return edge.u.name ++ "\t=>\t" ++ edge.v.name ++ ": " ++ edge.bottleneck.name ++ "\t" ++
      toString edge.delay ++ "\n" ++ lines
  | _              => .ok ""

/-- The text of the report, or nothing if no critical path was constructed. -/
def generateReport (s : Graph) : Except PyError (Option String) := do
  match s.criticalPath with
  | none      => return none
  | some path =>
    let length := s.bottleneck.values.sum
    let sink ← s.sinkNode
    let source ← s.sourceNode
    let goldenLength := sink.timestamp - source.timestamp
    if goldenLength ≠ length then
      .error (.assertionError ("[ERROR] golden length: " ++ toString goldenLength ++
        " vs. length: " ++ toString length))
    else
      let lines ← reportEdges s path
      return some ("critical path: " ++ toString length ++ "\n" ++ lines ++ "\nbottleneck:\n" ++
        String.join (s.bottleneck.items.map fun p => p.1 ++ ": " ++ toString p.2 ++ "\n"))

end ArchExplorer.Core
