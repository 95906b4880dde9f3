import ArchExplorer.Lib.Kahn
import ArchExplorer.Deg.Model

/-!
# Analysis of a window

The induced graph adds virtual edges between the dependences of different instructions. The
critical path is a path of maximal cost in it, extended to the first fetch and the last commit. The
unbounded loops of the search take the number of their iterations as fuel.
-/

namespace ArchExplorer.Deg

open ArchExplorer.Lib

/-! ### The induced graph -/

/-- The edges between different instructions, collected by their parent. -/
def skewedEdges (cmp : Vertex → Vertex → Ordering) (s : O3Graph) :
    ListMap Vertex OutgoingEdge cmp :=
  s.graph.toList.foldl (fun skewed entry =>
    entry.2.foldl (fun skewed edge =>
      if entry.1.instSeq ≠ edge.child.instSeq then skewed.push entry.1 edge else skewed)
      skewed) ∅

/-- Run `f` on a list and on all of its nonempty suffixes, from the longest to the shortest. -/
def forSuffixes {α : Type} (f : α → List α → DegM Unit) : List α → DegM Unit
  | []        => return ()
  | a :: rest => do
    f a rest
    forSuffixes f rest

/-- The entries after the first match that have the same time. -/
def addSameTiming (vertex : Vertex) (earlyTiming : UInt64) :
    List (Vertex × List OutgoingEdge) → DegM Unit
  | []             => return ()
  | (u, _) :: rest =>
    if vertex.instSeq < u.instSeq ∧ earlyTiming = u.timing then do
      addVirtualEdge vertex u
      addSameTiming vertex earlyTiming rest
    else
      return ()

/-- Connect `vertex` to the next entries in time. -/
def addViaTiming (vertex : Vertex) : List (Vertex × List OutgoingEdge) → DegM Unit
  | []             => return ()
  | (u, _) :: rest =>
    if vertex.timing ≤ u.timing ∧ vertex.instSeq < u.instSeq then do
      addVirtualEdge vertex u
      addSameTiming vertex u.timing rest
    else
      addViaTiming vertex rest

def addVirtualEdgeViaTimingImpl (entry : Vertex × List OutgoingEdge)
    (rest : List (Vertex × List OutgoingEdge)) : DegM Unit := do
  addViaTiming entry.1 (entry :: rest)
  forM entry.2 fun edge => addViaTiming edge.child (entry :: rest)

def addVirtualEdgeViaTiming : DegM Unit := do
  let skewed := skewedEdges edgeTimingCompare (← Exec.get)
  forSuffixes addVirtualEdgeViaTimingImpl skewed.toList

/-- Connect `vertex` to the next entry in program order. -/
def addViaInstSeq (vertex : Vertex) : List (Vertex × List OutgoingEdge) → DegM Unit
  | []             => return ()
  | (u, _) :: rest =>
    if vertex.instSeq < u.instSeq ∧ vertex.timing ≤ u.timing then
      addVirtualEdge vertex u
    else
      addViaInstSeq vertex rest

def addVirtualEdgeViaInstSeqImpl (entry : Vertex × List OutgoingEdge)
    (rest : List (Vertex × List OutgoingEdge)) : DegM Unit := do
  addViaInstSeq entry.1 (entry :: rest)
  forM entry.2 fun edge => addViaInstSeq edge.child (entry :: rest)

def addVirtualEdgeViaInstSeq : DegM Unit := do
  let skewed := skewedEdges edgeInstSeqCompare (← Exec.get)
  forSuffixes addVirtualEdgeViaInstSeqImpl skewed.toList

def constructInducedGraph : DegM Unit := do
  addVirtualEdgeViaTiming
  addVirtualEdgeViaInstSeq

/-! ### Topological sort -/

/-- The table of in-degrees that the sort starts with. -/
def indegreeMap (s : O3Graph) : Kahn.Degrees Vertex :=
  s.pred.toList.foldl (fun m entry => m.insert entry.1 entry.2.length) ∅

/-- Process one generation; the result holds the next one. -/
def sortGeneration : List Vertex → Kahn.Degrees Vertex →
    DegM (Kahn.Degrees Vertex × List Vertex)
  | [],        indegree => return (indegree, [])
  | v :: rest, indegree => do
    let edges ← readGraph v
    let r := Kahn.relax indegree (edges.map (·.child))
    let r' ← sortGeneration rest r.1
    return (r'.1, r.2 ++ r'.2)

def sortLoop : ℕ → List Vertex → Kahn.Degrees Vertex → List Vertex →
    DegM (Kahn.Degrees Vertex × List Vertex)
  | 0,        _,             _,        _   => Exec.throw .outOfFuel
  | fuel + 1, zeroIndegree, indegree, ret =>
    if zeroIndegree = [] then
      return (indegree, ret)
    else do
      let r ← sortGeneration zeroIndegree indegree
      sortLoop fuel r.2 r.1 (ret ++ zeroIndegree)

def topologicalSort (fuel : ℕ) : DegM (List Vertex) := do
  let s ← Exec.get
  let indegree := indegreeMap s
  let r ← sortLoop fuel (s.graph.keys.filter fun v => v ∉ indegree) indegree []
  if r.1.keys.length ≠ 0 then
    Exec.throw (.indegreeMap r.1.keys.length)
  let size := (← Exec.get).graph.size
  if r.2.length ≠ size then
    Exec.throw (.sortSize r.2.length size)
  return r.2

/-! ### Longest path -/

/-- A distance and the parent it was reached from. A default-constructed vertex is `none`. -/
abbrev DistEntry := Latency × Option Vertex

/-- The table `dist`. -/
abbrev Dist := OrdMap Vertex DistEntry vertexCompare

/-- The scan for a maximum that starts at `-1`: the maximum and the first entry that has it. -/
def scanMax (pairs : List DistEntry) : Latency × DistEntry :=
  pairs.foldl (fun best pair => if best.1 < pair.1 then (pair.1, pair) else best) (-1, (0, none))

/-- What the scan returns: a bound of all entries, reached by its first entry that has it. -/
structure ScanSpec (pairs : List DistEntry) (best : Latency × DistEntry) : Prop where
  le : ∀ pair ∈ pairs, pair.1 ≤ best.1
  first : best = (-1, (0, none)) ∨
    best.1 = best.2.1 ∧ ∃ l r, pairs = l ++ best.2 :: r ∧ ∀ pair ∈ l, pair.1 < best.1

lemma scanMax_spec (pairs : List DistEntry) : ScanSpec pairs (scanMax pairs) := by
  -- induction from the right: the last entry replaces the best one or is bounded by it
  induction pairs using List.reverseRecOn with
  | nil => exact ⟨by simp, .inl rfl⟩
  | append_singleton pairs pair ih =>
    have hstep : scanMax (pairs ++ [pair]) =
        if (scanMax pairs).1 < pair.1 then (pair.1, pair) else scanMax pairs :=
      List.foldl_concat _ _ _ _
    rw [hstep]
    split_ifs with hlt
    · refine ⟨?_, .inr ⟨rfl, pairs, [], rfl, fun q hq => lt_of_le_of_lt (ih.le q hq) hlt⟩⟩
      intro q hq
      rcases List.mem_append.mp hq with hq | hq
      · exact (lt_of_le_of_lt (ih.le q hq) hlt).le
      · rw [List.mem_singleton.mp hq]
    · refine ⟨?_, ?_⟩
      · intro q hq
        rcases List.mem_append.mp hq with hq | hq
        · exact ih.le q hq
        · rw [List.mem_singleton.mp hq]
          exact not_lt.mp hlt
      · rcases ih.first with h | ⟨hbest, l, r, hsplit, hl⟩
        · exact .inl h
        · refine .inr ⟨hbest, l, r ++ [pair], ?_, hl⟩
          rw [← List.cons_append, ← List.append_assoc, ← hsplit]

/-- The distances at which `iter` is reached from its parents. -/
def distPairs (iter : Vertex) : List IngoingEdge → Dist → DegM (Dist × List DistEntry)
  | [],        dist => return (dist, [])
  | i :: rest, dist => do
    let edge ← getOutgoingEdge i.parent iter
    let pair := ((dist.getD i.parent (0, none)).1 + edge.cost, some i.parent)
    let r ← distPairs iter rest (dist.touch i.parent (0, none))
    return (r.1, pair :: r.2)

def updateDist (dist : Dist) (iter : Vertex) : DegM Dist := do
  let r ← distPairs iter (← readPred iter) dist
  if r.2 = [] then
    return r.1.update iter (0, none) fun _ => (0, some iter)
  else
    return r.1.update iter (0, none) fun _ => (scanMax r.2).2

/-- Follow the parents from `v` until the distance is zero. -/
def backWalk (dist : Dist) : ℕ → Latency → Option Vertex → List Vertex →
    Except DegError (List Vertex)
  | 0,        _, _, _    => .error .outOfFuel
  | fuel + 1, l, v, path =>
    if l = 0 then
      .ok path
    else
      match v with
      | none   => .error .outOfBounds
      | some v =>
        let d := dist.getD v (0, none)
        backWalk dist fuel d.1 d.2 (v :: path)

lemma backWalk_zero (dist : Dist) (fuel : ℕ) (v : Option Vertex) (path : List Vertex) :
    backWalk dist (fuel + 1) 0 v path = .ok path := rfl

lemma backWalk_none (dist : Dist) (fuel : ℕ) {l : Latency} (hl : l ≠ 0) (path : List Vertex) :
    backWalk dist (fuel + 1) l none path = .error .outOfBounds := if_neg hl

lemma backWalk_some (dist : Dist) (fuel : ℕ) {l : Latency} (hl : l ≠ 0) (v : Vertex)
    (path : List Vertex) :
    backWalk dist (fuel + 1) l (some v) path =
      backWalk dist fuel (dist.getD v (0, none)).1 (dist.getD v (0, none)).2 (v :: path) :=
  if_neg hl

def longestPathCore (fuel : ℕ) : DegM (List Vertex) := do
  let topo ← topologicalSort fuel
  let dist ← topo.foldlM updateDist ∅
  let r := scanMax (dist.toList.map fun entry => (entry.2.1, some entry.1))
  Exec.ofExcept (backWalk dist fuel r.1 r.2.2 [])

/-! ### Searching paths -/

/-- One generation of the breadth-first search: an answer, or the vertices seen so far and the
next generation. -/
def bfsGeneration (target : Vertex) : List OutgoingEdge → List Vertex →
    DegM (Bool ⊕ List Vertex × List (Vertex × List OutgoingEdge))
  | [],        seen => return .inr (seen, [])
  | j :: rest, seen => do
    if target.inst.instSeq < j.child.inst.instSeq then
      return .inl false
    if ← ifExistEdge j.child target then
      return .inl true
    if j.child ∈ seen then
      return .inl false
    let edges ← readGraph j.child
    match ← bfsGeneration target rest (seen ++ [j.child]) with
    | .inl answer       => return .inl answer
    | .inr (seen, next) => return .inr (seen, (j.child, edges) :: next)

def bfsLoop (target : Vertex) : ℕ → List (Vertex × List OutgoingEdge) → List Vertex → DegM Bool
  | 0,        _,          _    => Exec.throw .outOfFuel
  | fuel + 1, generation, seen =>
    if generation = [] then
      return false
    else do
      match ← bfsGeneration target (generation.flatMap (·.2)) seen with
      | .inl answer       => return answer
      | .inr (seen, next) => bfsLoop target fuel next seen

def ifExistPath (fuel : ℕ) (source target : Vertex) : DegM Bool := do
  if target.inst.instSeq < source.inst.instSeq then
    return false
  let edges ← readGraph source
  bfsLoop target fuel [(source, edges)] []

/-- The first result that `f` finds. -/
def findFirst {α β : Type} (f : α → DegM (Option β)) : List α → DegM (Option β)
  | []        => return none
  | a :: rest => do
    match ← f a with
    | some b => return some b
    | none   => findFirst f rest

/-- Depth-first search. A path that is found leads from `source` to a parent of `target`. -/
def findPath (target : Vertex) : ℕ → Vertex → DegM (Option (List Vertex))
  | 0,        _      => Exec.throw .outOfFuel
  | fuel + 1, source => do
    if ← ifExistEdge source target then
      return some [source]
    match ← findFirst (fun edge => findPath target fuel edge.child) (← readGraph source) with
    | some path => return some (source :: path)
    | none      => return none

/-- Walk to the commit stage of the instruction of `vertex` and connect it to `sink`. -/
def fromCToSink (sink : Vertex) : ℕ → Vertex → DegM (Option (List Vertex))
  | 0,        _      => Exec.throw .outOfFuel
  | fuel + 1, vertex => do
    match (← readGraph vertex).find? (·.child.instSeq = vertex.instSeq) with
    | none   => return none
    | some j =>
      if j.child.type = .c then
        addVirtualEdge j.child sink
        return some [vertex, j.child]
      else
        match ← fromCToSink sink fuel j.child with
        | some path => return some (vertex :: path)
        | none      => return none

/-! ### The critical path -/

def getSourceVertex : DegM Vertex := do
  match (← Exec.get).graph.keys with
  | []     => Exec.throw .outOfBounds
  | v :: _ =>
    if v.instSeq = 1 ∧ v.type = .f1 then
      return v
    else
      Exec.throw (.sourceVertex v.instSeq v.type)

def getSinkVertex : DegM Vertex := do
  let s ← Exec.get
  match (s.graph.toList.flatMap (·.2)).find? fun edge =>
      edge.child.instSeq = s.instStream.instSeq ∧ edge.child.type = .c with
  | some edge => return edge.child
  | none      => Exec.throw (.noSink s.instStream.instSeq)

/-- The part of the path before its core: from the first fetch to a parent of `first`. -/
def pathHead (fuel : ℕ) (first : Vertex) : DegM (List Vertex) := do
  let source ← getSourceVertex
  if ← ifExistPath fuel source first then
    return (← findPath first fuel source).getD []
  else
    addVirtualEdge source first
    return [source]

/-- A path from `last` to a parent of `sink`. -/
def findTail (fuel : ℕ) (last sink : Vertex) : DegM (Option (List Vertex)) := do
  if ← ifExistPath fuel last sink then
    findPath sink fuel last
  else
    fromCToSink sink fuel last

/-- The part of the path after its core: from a child of `last` to the last commit. -/
def pathTail (fuel : ℕ) (last : Vertex) : DegM (List Vertex) := do
  let sink ← getSinkVertex
  match ← findTail fuel last sink with
  | some (_ :: path) => return path ++ [sink]
  | _                => Exec.throw .outOfBounds

/-- The core needs a first vertex; `path[0]` of an empty core is out of bounds. -/
def longestPathImpl (fuel : ℕ) : DegM (List Vertex) := do
  match ← longestPathCore fuel with
  | []            => Exec.throw .outOfBounds
  | first :: rest =>
    let path := (← pathHead fuel first) ++ first :: rest
    return path ++ (← pathTail fuel (path.getLast (by simp [path])))

/-- The first edges between consecutive vertices. -/
def pathEdges : List Vertex → DegM (List OutgoingEdge)
  | u :: v :: rest => do
    let edge ← getOutgoingEdge u v
    return edge :: (← pathEdges (v :: rest))
  | _              => return []

/-- Every edge of the path is looked up to be marked. -/
def longestPath (fuel : ℕ) : DegM (List Vertex) := do
  let path ← longestPathImpl fuel
  let _ ← pathEdges path
  return path

/-! ### The report -/

/-- What is written to the report file: the length of the path, one row for each of its edges and
one for each registered bottleneck. -/
structure ReportFile where
  length : Latency
  edges : List (String × String × String × Latency)
  bottlenecks : List (String × Latency)
  deriving DecidableEq, Repr

/-- Charge the edges of a path to the bottlenecks. -/
def profileLoop : List Vertex → BottleneckReport → Latency → DegM (BottleneckReport × Latency)
  | u :: v :: rest, report, length => do
    let edge ← getOutgoingEdge u v
    match matchName registerBottlenecks edge.bottleneck.repr with
    | some b => profileLoop (v :: rest) (report.incr edge.weight b) (length + edge.weight)
    | none   => Exec.throw (.noBottleneck edge.bottleneck.repr)
  | _,              report, length => return (report, length)

/-- The rows for the edges of a path. -/
def reportEdges : List Vertex → DegM (List (String × String × String × Latency))
  | u :: v :: rest => do
    let edge ← getOutgoingEdge u v
    return (u.repr, v.repr, edge.bottleneck.repr, edge.weight) :: (← reportEdges (v :: rest))
  | _              => return []

/-- The rows for the bottlenecks. -/
def reportBottlenecks (report : BottleneckReport) (names : List String) :
    Except DegError (List (String × Latency)) :=
  names.mapM fun name =>
    match matchName registerBottlenecks name with
    | some b => .ok (name, report.get b)
    | none   => .error (.noBottleneck name)

def generateReport (report : BottleneckReport) (path : List Vertex) : DegM ReportFile := do
  let edges ← reportEdges path
  let bottlenecks ← Exec.ofExcept (reportBottlenecks report registerBottlenecks)
  return ⟨report.length, edges, bottlenecks⟩

def profilingCriticalPath (path : List Vertex) : DegM (BottleneckReport × ReportFile) := do
  let r ← profileLoop path {} 0
  let report := { r.1 with length := r.2 }
  let sink ← getSinkVertex
  let source ← getSourceVertex
  let goldenLength := delay source.timing sink.timing
  if goldenLength ≠ r.2 then
    Exec.throw (.goldenLength goldenLength r.2)
  return (report, ← generateReport report path)

/-- What the analysis of a window computes. -/
structure Analysis where
  path : List Vertex
  report : BottleneckReport
  file : ReportFile

def analyzeWindow (fuel : ℕ) : DegM Analysis := do
  constructInducedGraph
  let path ← longestPath fuel
  let r ← profilingCriticalPath path
  return ⟨path, r.1, r.2⟩

end ArchExplorer.Deg
