import ArchExplorer.Lib.Assoc
import ArchExplorer.Lib.Bfs
import ArchExplorer.Lib.Binary64
import ArchExplorer.Lib.Dict
import ArchExplorer.Lib.DiGraph
import ArchExplorer.Lib.Exec
import ArchExplorer.Lib.Kahn
import ArchExplorer.Lib.Label
import ArchExplorer.Lib.LongestPath
import ArchExplorer.Lib.Machine
import ArchExplorer.Lib.MixedRadix
import ArchExplorer.Lib.OrdMap
import ArchExplorer.Lib.Pool
import ArchExplorer.Lib.Ring
import ArchExplorer.Lib.Scan
import ArchExplorer.Lib.Text
import ArchExplorer.Lib.Reading
import ArchExplorer.Lib.Threads
import ArchExplorer.Lib.Loop
import ArchExplorer.Lib.Improvement
import ArchExplorer.Lib.Acyclic
import ArchExplorer.Lib.Cut
import ArchExplorer.Lib.Regex
import ArchExplorer.Lib.Decimal
import ArchExplorer.Lib.Frame
import ArchExplorer.Lib.Walk
import ArchExplorer.Deg.Instruction
import ArchExplorer.Deg.Bottleneck
import ArchExplorer.Deg.Graph
import ArchExplorer.Deg.Model
import ArchExplorer.Deg.Analyze
import ArchExplorer.Deg.Run
import ArchExplorer.Deg.Stages
import ArchExplorer.Deg.Invariant
import ArchExplorer.Deg.Construction
import ArchExplorer.Deg.Induced
import ArchExplorer.Deg.VirtualEdges
import ArchExplorer.Deg.TopologicalSort
import ArchExplorer.Deg.AnalysisEffect
import ArchExplorer.Deg.Reachable
import ArchExplorer.Deg.WeightIsTime
import ArchExplorer.Deg.Window
import ArchExplorer.Deg.Distance
import ArchExplorer.Deg.Search
import ArchExplorer.Deg.CriticalPath
import ArchExplorer.Deg.MaximalCost
import ArchExplorer.Deg.PathSearch
import ArchExplorer.Deg.PathExtraction
import ArchExplorer.Deg.Lookup
import ArchExplorer.Deg.Profiling
import ArchExplorer.Deg.GoldenLength
import ArchExplorer.Deg.Edges
import ArchExplorer.Deg.Parse
import ArchExplorer.Core.Instruction
import ArchExplorer.Core.Graph
import ArchExplorer.Core.Model
import ArchExplorer.Core.Analyze
import ArchExplorer.Core.Chain
import ArchExplorer.Core.Construction
import ArchExplorer.Core.Induced
import ArchExplorer.Core.VirtualEdges
import ArchExplorer.Core.Schedules
import ArchExplorer.Core.Distance
import ArchExplorer.Core.GoldenLength
import ArchExplorer.Core.Parse
import ArchExplorer.Design.Space
import ArchExplorer.Design.Encoding
import ArchExplorer.Design.SeveralDesigns
import ArchExplorer.Explorer.Removal
import ArchExplorer.Explorer.Valid
import ArchExplorer.Explorer.Report
import ArchExplorer.Explorer.Search
import ArchExplorer.Explorer.Contribution
import ArchExplorer.Explorer.CppReport
import ArchExplorer.Explorer.Moves
import ArchExplorer.Explorer.Idle
import ArchExplorer.Explorer.Bookkeeping
import ArchExplorer.Explorer.Choice
import ArchExplorer.Explorer.Restored
import ArchExplorer.Explorer.Result
import ArchExplorer.Gem5.Rob
import ArchExplorer.Gem5.InstQueue
import ArchExplorer.Gem5.LsqUnit
import ArchExplorer.Gem5.DumpTimestamp
import ArchExplorer.Trace.Format
import ArchExplorer.Trace.Decoders
import ArchExplorer.Trace.Fields
import ArchExplorer.Trace.RoundTrip
import ArchExplorer.Trace.Agreement
import ArchExplorer.Compare.Records
import ArchExplorer.Compare.Chain
import ArchExplorer.Compare.Dependences
import ArchExplorer.Compare.Interaction
import ArchExplorer.Compare.CriticalPath
import ArchExplorer.Compare.Producer
import ArchExplorer.Compare.Registers
import ArchExplorer.Compare.VirtualEdges
import ArchExplorer.Baseline.ArchRanker
import ArchExplorer.Baseline.Ranking
import ArchExplorer.Baseline.Pruning
import ArchExplorer.Baseline.Stages
import ArchExplorer.Baseline.Sampling
import ArchExplorer.Baseline.AdaBoost
import ArchExplorer.Simulation.PowerArea
import ArchExplorer.Lib.Slots
import ArchExplorer.Simulation.Generate
