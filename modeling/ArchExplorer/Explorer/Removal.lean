import ArchExplorer.Core.Graph
import ArchExplorer.Design.Space
import Mathlib.Data.Rat.Defs
import Mathlib.Algebra.Order.Ring.Unbundled.Rat

/-!
# Bottleneck removal

The explorer moves a design along the tables of its components: it adds hardware for the largest
bottlenecks and takes hardware away from some of those that contribute nothing. The predictor and
the caches are sensitive components. They have a record of the configurations that were tried, and
once they are terminated they are set to the best of these.
-/

namespace ArchExplorer.Explorer

open ArchExplorer.Lib ArchExplorer.Design
open ArchExplorer.Core (Bottleneck)

/-! ### Sensitive components -/

/-- `np.average` of a list that is not empty. The sum and the quotient of doubles are rounded, so
that the average is a parameter of the search. -/
class Averaging where
  average : List ℚ → ℚ

/-- Averages that are not rounded, for searches with given inputs. -/
instance exactAveraging : Averaging where
  average l := l.sum / l.length

variable [Averaging]

/-- The record of a sensitive component. An average over nothing is no number, as is the last
average when it was one. -/
structure SensitiveComponent (Config : Type) where
  terminate : Bool
  configs : List Config
  contribution : List ℚ
  last : Option ℚ
  deriving DecidableEq

namespace SensitiveComponent

variable {Config : Type}

/-- `np.average`. -/
def average (l : List ℚ) : Option ℚ :=
  if l = [] then none else some (Averaging.average l)

/-- Comparisons with a value that is no number fail. -/
def updateTerminate (c : SensitiveComponent Config) : SensitiveComponent Config :=
  if c.last = some 0 then { c with last := average c.contribution }
  else match c.last, average c.contribution with
    | some l, some a => if a ≤ l then { c with last := some a } else { c with terminate := true }
    | _,      _      => { c with terminate := true }

/-- The recorded configuration with the least contribution. -/
def best (c : SensitiveComponent Config) : Except PyError Config :=
  if c.contribution.length ≠ c.configs.length then
    .error (.assertionError ("[ERROR] contribution: " ++ toString c.contribution.length ++
      " != configs: " ++ toString c.configs.length))
  else match c.contribution.min? with
    | some least => listItem c.configs (c.contribution.findIdx (· = least))
    | none       => .error (.valueError "min() arg is an empty sequence")

end SensitiveComponent

/-- The sizes of the three predictors, and twice a cache size with the associativity. -/
structure SensitiveComponentManager where
  bp : SensitiveComponent (ℤ × ℤ × ℤ)
  icache : SensitiveComponent (ℤ × ℤ)
  dcache : SensitiveComponent (ℤ × ℤ)
  deriving DecidableEq

def SensitiveComponentManager.updateTerminate (scm : SensitiveComponentManager) :
    SensitiveComponentManager where
  bp := scm.bp.updateTerminate
  icache := scm.icache.updateTerminate
  dcache := scm.dcache.updateTerminate

/-! ### Embeddings -/

/-- A computation that changes an embedding. -/
abbrev EmbeddingM := Exec PyError (List ℤ)

def getAt (pos : ℕ) : EmbeddingM ℤ := do
  let embedding ← Exec.get
  Exec.ofExcept (listItem embedding pos)

def setAt (pos : ℕ) (value : ℤ) : EmbeddingM Unit := do
  let embedding ← Exec.get
  if pos < embedding.length then Exec.modify (·.set pos value)
  else Exec.throw (.indexError "list assignment index out of range")

def fallbackBpConfig (scm : SensitiveComponentManager) : EmbeddingM Unit := do
  let (lp, gp, cp) ← Exec.ofExcept scm.bp.best
  setAt 3 lp
  setAt 4 gp
  setAt 5 cp

def fallbackIcacheConfig (scm : SensitiveComponentManager) : EmbeddingM Unit := do
  let (size, assoc) ← Exec.ofExcept scm.icache.best
  setAt 18 size
  setAt 19 assoc

def fallbackDcacheConfig (scm : SensitiveComponentManager) : EmbeddingM Unit := do
  let (size, assoc) ← Exec.ofExcept scm.dcache.best
  setAt 20 size
  setAt 21 assoc

/-! ### Adjustments -/

/-- The number of the first row that starts with the value. -/
def findRow (value : ℤ) : List (ℤ × List ℤ) → Except PyError ℤ
  | []                => .ok (-1)
  | (id, row) :: rows => do
    if (← listItem row 0) = value then return id else findRow value rows

/-- The search passes the description, whose entries are names. -/
def getIdx (mappings : Dict String Table) (name : String) (value : ℤ) : Except PyError ℤ := do
  let table ← getItem mappings name
  let _ ← listItem table.description 0
  findRow value table.rows.items

/-- Is there a row to move to? -/
def movable (up : Bool) (tot : ℕ) (idx : ℤ) : Bool :=
  decide (idx ≠ -1) && if up then decide ((tot : ℤ) ≠ idx) else decide (idx ≠ 1)

/-- The row to move to. -/
def neighbour (up : Bool) (idx : ℤ) : ℤ := if up then idx + 1 else idx - 1

/-- Move the entry at `pos` by one row. The row is looked for in the table `name` and the new value
is read from the table `target`. -/
def adjustFrom (mappings : Dict String Table) (name target : String) (pos : ℕ) (up : Bool) :
    EmbeddingM Bool := do
  let value ← getAt pos
  let table ← Exec.ofExcept (getItem mappings name)
  let idx ← Exec.ofExcept (getIdx mappings name value)
  if movable up table.rows.items.length idx then
    let row ← Exec.ofExcept (getMappingParams mappings target (neighbour up idx))
    setAt pos (← Exec.ofExcept (listItem row 0))
    return true
  else
    return false

section Adjust

variable (mappings : Dict String Table) (up : Bool)

def adjustParam (name : String) (pos : ℕ) : EmbeddingM Bool :=
  adjustFrom mappings name name pos up

def adjustIcache : EmbeddingM Bool := do
  let size ← adjustParam mappings up "l1i_size" 18
  let assoc ← adjustParam mappings up "l1i_assoc" 19
  return size || assoc

def adjustDcache : EmbeddingM Bool := do
  let size ← adjustParam mappings up "l1d_size" 20
  let assoc ← adjustParam mappings up "l1d_assoc" 21
  return size || assoc

/-- The choice predictor is looked up in its own table and set from the table of the global
predictor. -/
def adjustBp : EmbeddingM Bool := do
  let lp ← adjustParam mappings up "localPredictorSize" 3
  let gp ← adjustParam mappings up "globalPredictorSize" 4
  let cp ← adjustFrom mappings "choicePredictorSize" "globalPredictorSize" 5 up
  let ras ← adjustParam mappings up "RASSize" 6
  let btb ← adjustParam mappings up "BTBEntries" 7
  return lp || gp || cp || ras || btb

def adjustRob : EmbeddingM Bool := adjustParam mappings up "numROBEntries" 8

def adjustLq : EmbeddingM Bool := adjustParam mappings up "LQEntries" 12

def adjustSq : EmbeddingM Bool := adjustParam mappings up "SQEntries" 13

def adjustIntRf : EmbeddingM Bool := adjustParam mappings up "numPhysIntRegs" 9

def adjustFpRf : EmbeddingM Bool := adjustParam mappings up "numPhysFloatRegs" 10

def adjustIq : EmbeddingM Bool := adjustParam mappings up "numIQEntries" 11

def adjustIntAlu : EmbeddingM Bool := adjustParam mappings up "IntALU" 14

def adjustIntMultDiv : EmbeddingM Bool := adjustParam mappings up "IntMult_Div" 15

def adjustFpAlu : EmbeddingM Bool := adjustParam mappings up "FP_ALU" 16

def adjustFpMultDiv : EmbeddingM Bool := adjustParam mappings up "FP_MultDiv" 17

/-- The adjustment that answers a bottleneck. There is none for `Base`, the ports, RAW dependences
and virtual edges. -/
def adjustNamed (name : String) : EmbeddingM Bool :=
  if name = Bottleneck.icacheMiss.name then adjustIcache mappings up
  else if name = Bottleneck.dcacheMiss.name then adjustDcache mappings up
  else if name = Bottleneck.bpMiss.name then adjustBp mappings up
  else if name = Bottleneck.rob.name then adjustRob mappings up
  else if name = Bottleneck.lq.name then adjustLq mappings up
  else if name = Bottleneck.sq.name then adjustSq mappings up
  else if name = Bottleneck.intRF.name then adjustIntRf mappings up
  else if name = Bottleneck.fpRF.name then adjustFpRf mappings up
  else if name = Bottleneck.iq.name then adjustIq mappings up
  else if name = Bottleneck.intAlu.name then adjustIntAlu mappings up
  else if name = Bottleneck.intMultDiv.name then adjustIntMultDiv mappings up
  else if name = Bottleneck.fpAlu.name then adjustFpAlu mappings up
  else if name = Bottleneck.fpMultDiv.name then adjustFpMultDiv mappings up
  else pure false

end Adjust

/-! ### The removal -/

/-- A terminated component falls back to its best configuration, which counts as no adjustment. -/
def increaseOne (mappings : Dict String Table) (scm : SensitiveComponentManager) (name : String) :
    EmbeddingM Bool :=
  if name = Bottleneck.icacheMiss.name ∧ scm.icache.terminate then do
    fallbackIcacheConfig scm
    return false
  else if name = Bottleneck.dcacheMiss.name ∧ scm.dcache.terminate then do
    fallbackDcacheConfig scm
    return false
  else if name = Bottleneck.bpMiss.name ∧ scm.bp.terminate then do
    fallbackBpConfig scm
    return false
  else adjustNamed mappings true name

def increaseLoop (mappings : Dict String Table) (topK : ℤ) (scm : SensitiveComponentManager) :
    ℤ → List (String × ℚ) → EmbeddingM Unit
  | _,           []                => pure ()
  | numOfAdjust, (name, _) :: rest =>
    if topK ≤ numOfAdjust then pure ()
    else do
      let adjust ← increaseOne mappings scm name
      increaseLoop mappings topK scm (if adjust then numOfAdjust + 1 else numOfAdjust) rest

def increaseHardwareResource (mappings : Dict String Table) (topK : ℤ)
    (scm : SensitiveComponentManager) (contribution : List (String × ℚ)) : EmbeddingM Unit :=
  increaseLoop mappings topK scm.updateTerminate 0 contribution

/-- The bottlenecks without contribution. -/
def idle (contribution : List (String × ℚ)) : List String :=
  (contribution.filter fun c => c.2 = 0).map Prod.fst

/-- How many of them are drawn. -/
def sampleSize (topK : ℤ) (candidates : List String) : ℤ :=
  if topK < candidates.length then topK else candidates.length

/-- The outcomes of `random.sample`. -/
def IsSample (candidates : List String) (k : ℤ) (sample : List String) : Prop :=
  sample.Subperm candidates ∧ (sample.length : ℤ) = k

/-- `sample` is what `random.sample` returns if its second argument is not negative. -/
def decreaseHardwareResourceV2 (mappings : Dict String Table) (topK : ℤ)
    (contribution : List (String × ℚ)) (sample : List String) : EmbeddingM Unit :=
  if sampleSize topK (idle contribution) < 0 then
    Exec.throw (.valueError "Sample larger than population or is negative")
  else forM sample fun name => do
    let _ ← adjustNamed mappings false name

/-- The embedding of the new design, and the record of the sensitive components after the call. -/
def bottleneckRemoval (s : O3CPUDesignSpace) (topK : ℤ) (sample : List String)
    (scm : SensitiveComponentManager) (idx : ℤ) (contribution : List (String × ℚ)) :
    Except PyError (List ℤ) × SensitiveComponentManager :=
  match s.idxToEmbedding idx with
  | .error e      => (.error e, scm)
  | .ok embedding =>
    let run := (do
      increaseHardwareResource s.componentsMappings topK scm contribution
      decreaseHardwareResourceV2 s.componentsMappings topK contribution sample).run embedding
    (run.1.map fun _ => run.2, scm.updateTerminate)

end ArchExplorer.Explorer
