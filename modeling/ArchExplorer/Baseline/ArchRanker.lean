import ArchExplorer.Lib.Exec
import ArchExplorer.Explorer.Search

/-!
# ArchRanker

The baseline ranks a list of designs with a learned pairwise predictor, one model per metric, and
then looks for the designs that meet the threshold of the metric by simulating a few of them.
Simulations are counted and recorded.
-/

namespace ArchExplorer.Baseline

open ArchExplorer.Lib ArchExplorer.Design ArchExplorer.Explorer

inductive Metric where
  | perf
  | power
  | area
  deriving DecidableEq, Repr

/-- The result of a simulation that is compared with the threshold. -/
def Metric.value (r : Results) : Metric → ℚ
  | perf  => r.ipc
  | power => r.power
  | area  => r.area

/-- What the searches stop with: an exception, or too little fuel for a loop. -/
inductive RankError where
  | py (e : PyError)
  | outOfFuel
  deriving DecidableEq, Repr

/-- The global variables. -/
structure Counters where
  simulationCount : ℕ := 0
  exploredSet : List ℤ := []
  deriving DecidableEq, Repr

abbrev RankM := Exec RankError Counters

/-- The design space of the simulator, the results that `get_simulation_results` reads once a design
was simulated, and the thresholds. -/
structure Ranker where
  space : O3CPUDesignSpace
  results : ℤ → Results
  threshold : Metric → ℚ

/-- The array of designs: its rows, a single vector, or the rows under one more dimension. -/
inductive DesignArray where
  | rows (designs : List (List ℤ))
  | vector (entries : List ℤ)
  | stack (designs : List (List ℤ))
  deriving DecidableEq, Repr

/-- What a search returns: a list, a single index, or `None` after the end of its loop. -/
inductive Selection where
  | many (l : List ℕ)
  | one (i : ℕ)
  | none
  deriving DecidableEq, Repr

/-- The designs that are selected; a single index stands for one design. -/
def Selection.designs : Selection → List ℕ
  | many l => l
  | one i  => [i]
  | none   => []

/-! ### Ranking -/

section Rank

variable (predictProba : List ℤ → ℚ) (designs : List (List ℤ))

/-- `design_space[i] - design_space[j]`. -/
def feature (i j : ℕ) : List ℤ :=
  List.zipWith (· - ·) (designs.getD i []) (designs.getD j [])

/-- The loop over `rank_list`, of which `rest` is left. It ends with the first insertion. -/
def insertBefore (i : ℕ) (rankList : List ℕ) : List ℕ → List ℕ
  | []        => rankList
  | j :: rest =>
    if predictProba (feature designs i j) ≤ 1 / 2 then
      rankList.insertIdx (rankList.idxOf j) i
    else
      insertBefore i rankList rest

/-- One iteration: a design that was not inserted is appended. -/
def rankStep (rankList : List ℕ) (i : ℕ) : List ℕ :=
  if rankList.length = 0 then rankList ++ [i]
  else
    let prevLen := rankList.length
    let rankList := insertBefore predictProba designs i rankList rankList
    if prevLen = rankList.length then rankList ++ [i] else rankList

/-- The ranking, small to large. -/
def constructRankList : List ℕ :=
  (List.range designs.length).foldl (rankStep predictProba designs) []

end Rank

/-! ### Searches -/

section Search

variable (env : Ranker) (designs : List (List ℤ))

/-- `design_space[i]`. -/
def arrayItem {α : Type} (rows : List α) (i : ℕ) : Except PyError α :=
  match rows[i]? with
  | some row => .ok row
  | none     => .error (.indexError ("index " ++ toString i ++
      " is out of bounds for axis 0 with size " ++ toString rows.length))

/-- The results of a row of the array. -/
def measure (i : ℕ) : Except PyError (ℤ × Results) := do
  let embedding ← arrayItem designs i
  let idx ← env.space.embeddingToIdx embedding
  return (idx, env.results idx)

/-- Simulate a design if that is needed and read its results. -/
def simulateDesign (i : ℕ) : RankM Results := do
  let (idx, results) ← Exec.ofExcept ((measure env designs i).mapError .py)
  Exec.modify fun c =>
    { simulationCount := c.simulationCount + 1, exploredSet := c.exploredSet ++ [idx] }
  return results

/-- `rank_list[mid]`. -/
def rankAt (rankList : List ℕ) (mid : ℤ) : RankM ℕ :=
  Exec.ofExcept ((listItem rankList mid.toNat).mapError .py)

/-- The loop of `binary_search_for_power_and_area`. Only the upper bound moves. -/
def powerAndAreaLoop (rankList : List ℕ) (metric : Metric) : ℕ → ℤ → RankM Selection
  | 0,        _    => Exec.throw .outOfFuel
  | fuel + 1, high => do
    if 0 ≤ high then
      let mid := (high + 0) / 2
      if mid = 0 then
        return .one (← rankAt rankList mid)
      let results ← simulateDesign env designs (← rankAt rankList mid)
      if metric.value results ≤ env.threshold metric then
        return .many (rankList.take (mid + 1).toNat)
      else
        powerAndAreaLoop rankList metric fuel (mid - 1)
    else
      return .none

def binarySearchForPowerAndArea (fuel : ℕ) (rankList : List ℕ) (metric : Metric) :
    RankM Selection :=
  powerAndAreaLoop env designs rankList metric fuel (rankList.length - 1)

/-- The loop of `binary_search_for_perf`. Only the lower bound moves. -/
def perfLoop (rankList : List ℕ) (metric : Metric) (high : ℤ) : ℕ → ℤ → RankM Selection
  | 0,        _   => Exec.throw .outOfFuel
  | fuel + 1, low => do
    if low ≤ high then
      let mid := (high + low) / 2
      if mid = high then
        return .one (← rankAt rankList mid)
      let results ← simulateDesign env designs (← rankAt rankList mid)
      if results.ipc < env.threshold metric then
        perfLoop rankList metric high fuel (mid + 1)
      else
        return .many (rankList.drop mid.toNat)
    else
      return .none

def binarySearchForPerf (fuel : ℕ) (rankList : List ℕ) (metric : Metric) : RankM Selection :=
  perfLoop env designs rankList metric (rankList.length - 1) fuel 0

def search (fuel : ℕ) (rankList : List ℕ) (metric : Metric) : RankM Selection :=
  match metric with
  | .power | .area => binarySearchForPowerAndArea env designs fuel rankList metric
  | .perf          => binarySearchForPerf env designs fuel rankList metric

end Search

/-- `prune_design_space`. A stack has one entry, which is ranked without a prediction and found
without a simulation. -/
def pruneDesignSpace (env : Ranker) (predictProba : List ℤ → ℚ) (fuel : ℕ) (metric : Metric) :
    DesignArray → RankM Selection
  | .vector _     => return .many [0]
  | .stack _      => return .one 0
  | .rows designs => do
    let rankList := constructRankList predictProba designs
    if rankList.length = designs.length then
      search env designs fuel rankList metric
    else
      Exec.throw (.py (.assertionError ("[ERROR] rank_list: " ++ toString rankList ++
        ", n_samples: " ++ toString designs.length)))

/-! ### The three stages -/

namespace DesignArray

/-- `np.array` of a list of designs. -/
def ofList : List (List ℤ) → DesignArray
  | []      => .vector []
  | designs => .rows designs

/-- `design_space[selection]`. A stack is only indexed with 0. -/
def select : DesignArray → Selection → Except PyError DesignArray
  | .rows designs,   .many l => return .rows (← l.mapM (arrayItem designs))
  | .rows designs,   .one i  => return .vector (← arrayItem designs i)
  | .rows designs,   .none   => return .stack designs
  | .vector entries, .many l => return .vector (← l.mapM (arrayItem entries))
  | .vector entries, .one i  => return .vector [← arrayItem entries i]
  | .vector entries, .none   => return .rows [entries]
  | .stack designs,  _       => return .rows designs

/-- `if design_space.ndim == 1: design_space = design_space[np.newaxis, :]`. -/
def newaxis : DesignArray → DesignArray
  | .vector entries => .rows [entries]
  | array           => array

end DesignArray

/-- Prune the designs by one metric. -/
def pruneStage (env : Ranker) (model : Metric → List ℤ → ℚ) (fuel : ℕ) (array : DesignArray)
    (metric : Metric) : RankM DesignArray := do
  let selection ← pruneDesignSpace env (model metric) fuel metric array
  let array ← Exec.ofExcept ((array.select selection).mapError .py)
  return array.newaxis

/-- The part of `main` between the sample and the report: the designs with the indices `idx` are
pruned by area, then by power, then by performance. -/
def prune (env : Ranker) (model : Metric → List ℤ → ℚ) (fuel : ℕ) (idx : List ℤ) :
    RankM DesignArray := do
  let designs ← Exec.ofExcept ((idx.mapM env.space.idxToEmbedding).mapError .py)
  let array ← pruneStage env model fuel (.ofList designs) .area
  let array ← pruneStage env model fuel array .power
  pruneStage env model fuel array .perf

end ArchExplorer.Baseline
