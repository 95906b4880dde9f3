import ArchExplorer.Explorer.Report
import ArchExplorer.Lib.Loop

/-!
# The search

An exploration starts with a design and goes from one design to the next: it evaluates the design,
keeps the best one, and removes bottlenecks from it. The simulator leaves reports of the performance
and of the bottlenecks of each benchmark; a failed simulation leaves none.
-/

namespace ArchExplorer.Explorer

open ArchExplorer.Lib ArchExplorer.Lib.Text ArchExplorer.Design
open ArchExplorer.Core (Bottleneck)

variable [Averaging]

/-! ### The first design -/

/-- What the parameters after the pipeline width are drawn from, without the choice predictor, which
gets the size of the global predictor. -/
def baselineOptions (pipelineWidth : ℤ) : List (List ℤ) :=
  if pipelineWidth = 1 then
    [[16], [8, 12, 16], [512], [2048], [16, 18, 20], [1024], [32, 48, 64], [40, 48, 64, 80],
      [40, 48, 64, 80], [16, 24, 32], [20, 24, 28], [20, 24, 28], [3, 4], [1], [1], [1], [16], [2],
      [16], [2]]
  else if pipelineWidth = 2 then
    [[16, 32], [12, 16, 20], [512, 1024], [2048, 4096], [16, 18, 20, 22], [1024, 2048, 4096],
      [32, 48, 64, 80], [40, 48, 64, 80], [40, 48, 64, 80], [16, 24, 32], [20, 24, 28],
      [20, 24, 28], [3, 4], [1], [1], [1], [16, 32], [2, 4], [16, 32], [2, 4]]
  else if pipelineWidth = 3 then
    [[16, 32, 64], [12, 16, 20, 24], [512, 1024, 2048], [2048, 4096, 8192], [16, 18, 20, 22, 24],
      [1024, 2048, 4096], [32, 48, 64, 80, 96, 112], [40, 48, 64, 80, 96, 112, 128],
      [40, 48, 64, 80, 96, 112, 128], [16, 24, 32, 40], [20, 24, 28, 32], [20, 24, 28, 32],
      [3, 4, 5], [1], [1], [1], [16, 32, 64], [2, 4], [16, 32, 64], [2, 4]]
  else if pipelineWidth = 4 then
    [[32, 64], [12, 16, 20, 24, 48], [512, 1024, 2048], [2048, 4096, 8192],
      [16, 18, 20, 22, 24, 26], [1024, 2048, 4096], [80, 96, 112, 128, 144, 160],
      [80, 96, 112, 128, 144, 160], [80, 96, 112, 128, 144, 160], [24, 32, 40, 48],
      [24, 28, 32, 36], [24, 28, 32, 36], [4, 5, 6], [1, 2], [1, 2], [1, 2], [16, 32, 64], [2, 4],
      [16, 32, 64], [2, 4]]
  else
    [[32, 64], [12, 16, 20, 24, 48], [512, 1024, 2048], [2048, 4096, 8192],
      [16, 18, 20, 22, 24, 26], [2048, 4096], [96, 112, 128, 144, 160, 176],
      [96, 112, 128, 144, 160, 176], [96, 112, 128, 144, 160, 176], [24, 32, 40, 48, 56],
      [24, 28, 32, 36], [24, 28, 32, 36], [4, 5, 6], [1, 2], [1, 2], [1, 2], [16, 32, 64], [2, 4],
      [16, 32, 64], [2, 4]]

/-- The embedding of a first design. The `k`-th parameter is drawn with the number `draw k`. -/
def baseline (draw : ℕ → ℕ) (pipelineWidth : ℤ) : List ℤ :=
  let drawn := (baselineOptions pipelineWidth).mapIdx fun k l => l.getD (draw k % l.length) 0
  pipelineWidth :: (drawn.take 4 ++ drawn.drop 3)

def generateBaselineV1 (s : O3CPUDesignSpace) (draw : ℕ → ℕ) (pipelineWidth : ℤ) :
    Except PyError ℤ :=
  s.embeddingToIdx (baseline draw pipelineWidth)

def getPipelineWidth (s : O3CPUDesignSpace) (idx : ℤ) : Except PyError ℤ := do
  listItem (← s.idxToEmbedding idx) 0

/-- The first index. A start up to 8 is a pipeline width. -/
def startIdx (s : O3CPUDesignSpace) (draw : ℕ → ℕ) (start : ℤ) : Except PyError ℤ := do
  if 8 < start then
    let _ ← getPipelineWidth s start
    return start
  else generateBaselineV1 s draw start

/-! ### Evaluation -/

/-- The report `ppa.rpt` of a benchmark. Power and area are positive, so that no division by zero
occurs between floats. -/
structure Ppa where
  ipc : ℚ
  cpi : ℚ
  power : ℚ
  area : ℚ
  power_pos : 0 < power
  area_pos : 0 < area

/-- What `get_simulation_results` returns. -/
structure Results where
  ipc : ℚ
  cpi : ℚ
  power : ℚ
  area : ℚ
  deriving DecidableEq

/-- The averages over the benchmarks that have a report, and zeros if none has one. -/
def getSimulationResults (rpts : List (Option Ppa)) : Results :=
  let found := rpts.reduceOption
  if found.length = 0 then ⟨0, 0, 0, 0⟩
  else ⟨Averaging.average (found.map Ppa.ipc), Averaging.average (found.map Ppa.cpi),
    Averaging.average (found.map Ppa.power), Averaging.average (found.map Ppa.area)⟩

def metric (ipc power area : ℚ) : Except PyError ℚ :=
  if power * area = 0 then .error .zeroDivisionError else .ok (ipc ^ 2 / (power * area))

/-! ### The record of the sensitive components -/

namespace SensitiveComponent

variable {Config : Type}

def setConfig (c : SensitiveComponent Config) (config : Config) : SensitiveComponent Config :=
  { c with configs := c.configs ++ [config] }

def update (c : SensitiveComponent Config) (contribution : ℚ) : SensitiveComponent Config :=
  { c with contribution := c.contribution ++ [contribution] }

/-- Change the record of a component that is not terminated. -/
def unlessTerminated (c : SensitiveComponent Config)
    (f : Except PyError (SensitiveComponent Config)) : Except PyError (SensitiveComponent Config) :=
  if c.terminate then .ok c else f

def reset (c : SensitiveComponent Config) : SensitiveComponent Config :=
  { c with terminate := false, configs := [], contribution := [], last := some 0 }

end SensitiveComponent

/-- The sizes of the predictors. -/
def bpConfig (embedding : List ℤ) : Except PyError (ℤ × ℤ × ℤ) := do
  return (← listItem embedding 3, ← listItem embedding 4, ← listItem embedding 5)

/-- The size and the associativity of the instruction cache. -/
def icacheConfig (embedding : List ℤ) : Except PyError (ℤ × ℤ) := do
  return (← listItem embedding 18, ← listItem embedding 19)

/-- The size and the associativity of the data cache. -/
def dcacheConfig (embedding : List ℤ) : Except PyError (ℤ × ℤ) := do
  return (← listItem embedding 20, ← listItem embedding 21)

namespace SensitiveComponentManager

def setConfig (scm : SensitiveComponentManager) (embedding : List ℤ) :
    Except PyError SensitiveComponentManager := do
  let bp ← scm.bp.unlessTerminated (scm.bp.setConfig <$> bpConfig embedding)
  let icache ← scm.icache.unlessTerminated (scm.icache.setConfig <$> icacheConfig embedding)
  let dcache ← scm.dcache.unlessTerminated (scm.dcache.setConfig <$> dcacheConfig embedding)
  return ⟨bp, icache, dcache⟩

def update (scm : SensitiveComponentManager) (contribution : Dict String ℚ) :
    Except PyError SensitiveComponentManager := do
  let bp ← scm.bp.unlessTerminated
    (scm.bp.update <$> getItem contribution Bottleneck.bpMiss.name)
  let icache ← scm.icache.unlessTerminated
    (scm.icache.update <$> getItem contribution Bottleneck.icacheMiss.name)
  let dcache ← scm.dcache.unlessTerminated
    (scm.dcache.update <$> getItem contribution Bottleneck.dcacheMiss.name)
  return ⟨bp, icache, dcache⟩

def reset (scm : SensitiveComponentManager) : SensitiveComponentManager where
  bp := scm.bp.reset
  icache := scm.icache.reset
  dcache := scm.dcache.reset

end SensitiveComponentManager

/-! ### The analysis -/

/-- The contributions from the largest to the smallest. -/
def summary (contribution : Dict String ℚ) : List (String × ℚ) :=
  contribution.items.mergeSort fun c c' => c'.2 ≤ c.2

/-- The contributions over the benchmarks that have a report, and the record of the sensitive
components after the call. -/
def getBottleneckContribution (rpts : List (Option Text)) (scm : SensitiveComponentManager) :
    Except PyError (List (String × ℚ) × SensitiveComponentManager) := do
  let btnks ← rpts.reduceOption.mapM readReport
  let contribution ← calcBottleneckContribution btnks
  let scm ← scm.update contribution
  return (summary contribution, scm)

def bottleneckAnalysis (s : O3CPUDesignSpace) (topK : ℤ) (rpts : List (Option Text))
    (sample : List String) (scm : SensitiveComponentManager) (idx : ℤ) :
    Except PyError (List ℤ × SensitiveComponentManager) := do
  let (contribution, scm) ← getBottleneckContribution rpts scm
  let (embedding, scm) := bottleneckRemoval s topK sample scm idx contribution
  return (← embedding, scm)

/-! ### The exploration -/

/-- The configuration of a search. -/
structure Settings where
  budget : ℕ
  earlyStopping : ℤ
  topK : ℤ

/-- What the simulator and the random generator deliver in each iteration: the reports of the
benchmarks, and the sample of the bottlenecks without contribution. -/
structure Environment where
  ppa : ℕ → List (Option Ppa)
  analysis : ℕ → List (Option Text)
  sample : ℕ → List String

/-- An entry of the trace. -/
structure Entry where
  embedding : List ℤ
  results : Results
  pppa : ℚ
  deriving DecidableEq

/-- The record of a search. Nothing is the best before the first improvement. -/
structure Solutions where
  trace : List Entry
  bestPppa : ℚ
  bestPpa : Option Results
  bestIdx : ℤ
  deriving DecidableEq

/-- The state at the beginning of an iteration. -/
structure SearchState where
  scm : SensitiveComponentManager
  idx : ℤ
  lastUpdate : ℕ
  solutions : Solutions
  deriving DecidableEq

/-- Keep a design that is better than all designs before. -/
def improve (solutions : Solutions) (lastUpdate i : ℕ) (idx : ℤ) (results : Results) (pppa : ℚ) :
    Solutions × ℕ :=
  if solutions.bestPppa < pppa then
    ({ solutions with bestPppa := pppa, bestPpa := some results, bestIdx := idx }, i)
  else (solutions, lastUpdate)

section Exploration

variable (s : O3CPUDesignSpace) (settings : Settings) (env : Environment)

/-- Iteration `i`. -/
def explorationBody (i : ℕ) (st : SearchState) :
    Except PyError (Flow Solutions SearchState) := do
  let embedding ← s.idxToEmbedding st.idx
  let results := getSimulationResults (env.ppa i)
  let curPppa ← metric results.ipc results.power results.area
  let solutions :=
    { st.solutions with trace := st.solutions.trace ++ [⟨embedding, results, curPppa⟩] }
  if results.ipc = 0 then return .leave solutions
  else
    let (solutions, lastUpdate) := improve solutions st.lastUpdate i st.idx results curPppa
    let (embedding, scm) ←
      bottleneckAnalysis s settings.topK (env.analysis i) (env.sample i) st.scm st.idx
    let scm ← scm.setConfig embedding
    let idx ← s.embeddingToIdx embedding
    if settings.earlyStopping ≤ i - lastUpdate then return .leave solutions
    else return .next ⟨scm, idx, lastUpdate, solutions⟩

/-- The state before the first iteration, which begins with an empty record. -/
def explorationInit (scm : SensitiveComponentManager) (draw : ℕ → ℕ) (start : ℤ) :
    Except PyError SearchState := do
  let idx ← startIdx s draw start
  let scm ← scm.reset.setConfig (← s.idxToEmbedding idx)
  return ⟨scm, idx, 0, ⟨[], 0, none, 0⟩⟩

def explorationImpl (scm : SensitiveComponentManager) (draw : ℕ → ℕ) (start : ℤ) :
    Except PyError Solutions := do
  let st ← explorationInit s scm draw start
  Loop.run (explorationBody s settings env) SearchState.solutions settings.budget 0 st

end Exploration

end ArchExplorer.Explorer
