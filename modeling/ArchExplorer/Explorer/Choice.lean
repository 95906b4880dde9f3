import ArchExplorer.Explorer.Bookkeeping

/-!
# Which removals stay in the design space

All parameters but the choice predictor move along their own table. Whether a removal returns a
design is therefore decided by the rows of the choice predictor alone: each of its moves has to end
in a row of its table. A value outside of the table is never moved again.
-/

namespace ArchExplorer.Explorer

open ArchExplorer.Lib ArchExplorer.Design
open ArchExplorer.Core (Bottleneck)

section Passes

variable {mappings : Dict String Table} {scm : SensitiveComponentManager} {name : String} {p : ℕ}
  {up : Bool} {topK : ℤ} {cs : List (String × ℚ)} {sample : List String} {e e' : List ℤ} {r v : ℤ}

/-! ### Embeddings by their entries -/

end Passes

/-! ### The removal -/

section Removal

variable {s : O3CPUDesignSpace} {idx topK : ℤ} {e : List ℤ} {cs : List (String × ℚ)}
  {sample : List String} {scm : SensitiveComponentManager}

end Removal

end ArchExplorer.Explorer
