import ArchExplorer.Lib.Exec
import ArchExplorer.Lib.Slots
import ArchExplorer.Simulation.PowerArea

/-!
# The sources of the simulator

A design is built into the simulator by rewriting its sources: a regular expression finds the
declaration of a parameter and the number in it is replaced. The functional units are listed in a
class that is replaced as a whole.
-/

namespace ArchExplorer.Simulation

open ArchExplorer.Lib ArchExplorer.Lib.Text ArchExplorer.Design

/-- The files that are rewritten. -/
inductive File where
  | baseO3Cpu
  | branchPredictor
  | fuPool
  | riscvTlb
  deriving DecidableEq, Repr

abbrev Sources := File → Text

/-- Rewriting of the sources, as far as an exception lets it come. -/
abbrev GenM := Exec PyError Sources

/-- `modify_gem5_source_code`. Every match is replaced, and there is no escape in a target. -/
def modifyGem5SourceCode (src : File) (pattern : Regex) (target : Text) : GenM Unit :=
  Exec.modify fun sources => Function.update sources src (pattern.sub target (sources src))

/-! ### Declarations of parameters -/

/-- The parameters that are declared with a number. -/
inductive Setting where
  | fetchWidth | decodeWidth | renameWidth | dispatchWidth | issueWidth | wbWidth | commitWidth
  | squashWidth | fetchBufferSize | fetchQueueSize | localPredictorSize | globalPredictorSize
  | choicePredictorSize | rasSize | btbEntries | numRobEntries | numPhysIntRegs | numPhysFloatRegs
  | numIqEntries | lqEntries | sqEntries | lfstSize | ssitSize | tlbSize
  deriving DecidableEq, Repr

namespace Setting

def file : Setting → File
  | localPredictorSize | globalPredictorSize | choicePredictorSize | rasSize | btbEntries =>
    .branchPredictor
  | tlbSize => .riscvTlb
  | _ => .baseO3Cpu

def name : Setting → String
  | fetchWidth          => "fetchWidth"
  | decodeWidth         => "decodeWidth"
  | renameWidth         => "renameWidth"
  | dispatchWidth       => "dispatchWidth"
  | issueWidth          => "issueWidth"
  | wbWidth             => "wbWidth"
  | commitWidth         => "commitWidth"
  | squashWidth         => "squashWidth"
  | fetchBufferSize     => "fetchBufferSize"
  | fetchQueueSize      => "fetchQueueSize"
  | localPredictorSize  => "localPredictorSize"
  | globalPredictorSize => "globalPredictorSize"
  | choicePredictorSize => "choicePredictorSize"
  | rasSize             => "RASSize"
  | btbEntries          => "BTBEntries"
  | numRobEntries       => "numROBEntries"
  | numPhysIntRegs      => "numPhysIntRegs"
  | numPhysFloatRegs    => "numPhysFloatRegs"
  | numIqEntries        => "numIQEntries"
  | lqEntries           => "LQEntries"
  | sqEntries           => "SQEntries"
  | lfstSize            => "LFSTSize"
  | ssitSize            => "SSITSize"
  | tlbSize             => "size"

/-- The type of the parameter. -/
def type : Setting → String
  | tlbSize => "Int"
  | _       => "Unsigned"

/-- What follows the number, as far as the pattern goes. -/
def rest : Setting → String
  | fetchWidth          => ", \"Fetch width\")"
  | decodeWidth         => ", \"Decode width\")"
  | renameWidth         => ", \"Rename width\")"
  | dispatchWidth       => ", \"Dispatch width\")"
  | issueWidth          => ", \"Issue width\")"
  | wbWidth             => ", \"Writeback width\")"
  | commitWidth         => ", \"Commit width\")"
  | squashWidth         => ", \"Squash width width\")"
  | fetchBufferSize     => ", \"Fetch buffer size in bytes\")"
  | fetchQueueSize      => ", \"Fetch queue size in micro-ops \""
  | localPredictorSize  => ", \"Size of local predictor for TournamentBP\")"
  | globalPredictorSize => ", \"Size of global predictor for TournamentBP\")"
  | choicePredictorSize => ", \"Size of choice predictor for TournamentBP\")"
  | rasSize             => ", \"RAS size\")"
  | btbEntries          => ", \"Number of BTB entries\")"
  | numRobEntries       => ", \"Number of reorder buffer entries\")"
  | numPhysIntRegs      => ","
  | numPhysFloatRegs    => ", \"Number of physical floating point \""
  | numIqEntries        => ", \"Number of instruction queue entries\")"
  | lqEntries           => ", \"Number of load queue entries\")"
  | sqEntries           => ", \"Number of store queue entries\")"
  | lfstSize            => ", \"Last fetched store table size\")"
  | ssitSize            => ", \"Store set ID table size\")"
  | tlbSize             => ", \"TLB size\")"

/-- `name\ =\ Param.type\(\d+rest`. The point stands for any character but the end of the line. A
digit is an ASCII one here, where Python takes the digits of all scripts. -/
def pattern (p : Setting) : Regex :=
  .seq (.text (p.name ++ " = Param").toList) (.seq (.cls (· != '\n'))
    (.seq (.text (p.type ++ "(").toList) (.seq (.plus Char.isDigit) (.text p.rest.toList))))

/-- The declaration with the given value. -/
def declaration (p : Setting) (value : ℤ) : Text :=
  (p.name ++ " = Param." ++ p.type ++ "(").toList ++ ofInt value ++ p.rest.toList

/-- Declare a value. -/
def set (p : Setting) (value : ℤ) : GenM Unit :=
  modifyGem5SourceCode p.file p.pattern (p.declaration value)

end Setting

/-! ### The generators -/

def generatePipelineWidth (width : ℤ) : GenM Unit := do
  Setting.fetchWidth.set width
  Setting.decodeWidth.set width
  Setting.renameWidth.set width
  Setting.dispatchWidth.set width
  Setting.issueWidth.set width
  Setting.wbWidth.set width
  Setting.commitWidth.set width
  Setting.squashWidth.set width

def generateFetchBuffer (fetchBufferSize : ℤ) : GenM Unit :=
  Setting.fetchBufferSize.set fetchBufferSize

def generateFetchQueue (fetchQueueSize : ℤ) : GenM Unit := Setting.fetchQueueSize.set fetchQueueSize

def generateLocalPredictor (localPredictorSize : ℤ) : GenM Unit :=
  Setting.localPredictorSize.set localPredictorSize

def generateGlobalPredictor (globalPredictorSize : ℤ) : GenM Unit :=
  Setting.globalPredictorSize.set globalPredictorSize

def generateChoicePredictor (choicePredictorSize : ℤ) : GenM Unit :=
  Setting.choicePredictorSize.set choicePredictorSize

def generateRas (rasSize : ℤ) : GenM Unit := Setting.rasSize.set rasSize

def generateBtb (btbEntry : ℤ) : GenM Unit := Setting.btbEntries.set btbEntry

def generateRob (robEntry : ℤ) : GenM Unit := Setting.numRobEntries.set robEntry

def generatePhysIntReg (physIntReg : ℤ) : GenM Unit := Setting.numPhysIntRegs.set physIntReg

def generatePhysFpReg (physFloatReg : ℤ) : GenM Unit := Setting.numPhysFloatRegs.set physFloatReg

def generateIq (iqEntry : ℤ) : GenM Unit := Setting.numIqEntries.set iqEntry

def generateLq (lqEntry : ℤ) : GenM Unit := Setting.lqEntries.set lqEntry

def generateSq (sqEntry : ℤ) : GenM Unit := Setting.sqEntries.set sqEntry

/-- Never called. -/
def generateMemPredictor (lfstSize ssitSize : ℤ) : GenM Unit := do
  Setting.lfstSize.set lfstSize
  Setting.ssitSize.set ssitSize

/-- Never called. -/
def generateMmu (size : ℤ) : GenM Unit := Setting.tlbSize.set size

/-! ### The functional units -/

/-- The characters of `[\w\s\(\[,=\)\]]`. Of the letters and digits of `\w` these
are the ASCII ones, where Python takes those of all scripts. -/
def inClass (c : Char) : Bool :=
  c.isAlphanum || c == '_' || isUnicodeSpace c || ['(', '[', ',', '=', ')', ']'].contains c

/-- The head of the class. -/
def fuPoolHeader : Text := "class DSE_FUPool(FUPool):".toList

/-- `class DSE_FUPool\(FUPool\):[\w\s\(\[,=\)\]]*`. -/
def fuPoolPattern : Regex := .seq (.text fuPoolHeader) (.star inClass)

/-- The body of the class. -/
def fuPoolBody (intAlu intMultDiv fpAlu fpMultDiv : String) : Text :=
  ("\n    FUList = [ " ++ intAlu ++ "(), " ++ intMultDiv ++ "(), " ++ fpAlu ++ "(), " ++
    fpMultDiv ++ "(), RdWrPort_v1() ]\n").toList

/-- The text that the class is replaced by. It begins with a line of its own. -/
def fuPool (intAlu intMultDiv fpAlu fpMultDiv : String) : Text :=
  '\n' :: (fuPoolHeader ++ fuPoolBody intAlu intMultDiv fpAlu fpMultDiv)

def intAluUnits : List (ℤ × String) :=
  [(3, "IntALU_v1"), (4, "IntALU_v2"), (5, "IntALU_v3"), (6, "IntALU_v4")]

def intMultDivUnits : List (ℤ × String) := [(1, "IntMultDiv_v1"), (2, "IntMultDiv_v2")]

def fpAluUnits : List (ℤ × String) := [(1, "FP_ALU_v1"), (2, "FP_ALU_v2"), (4, "FP_ALU")]

def fpMultDivUnits : List (ℤ × String) := [(1, "FP_MultDiv_v1"), (2, "FP_MultDiv_v2")]

/-- Look a number of units up. -/
def unitOf (units : List (ℤ × String)) (n : ℤ) : Except PyError String :=
  match units.lookup n with
  | some unit => .ok unit
  | none      => .error (.keyError (toString n))

def generateEu (intAlu intMultDiv fpAlu fpMultDiv : ℤ) : GenM Unit := do
  let alu ← Exec.ofExcept (unitOf intAluUnits intAlu)
  let multDiv ← Exec.ofExcept (unitOf intMultDivUnits intMultDiv)
  let fp ← Exec.ofExcept (unitOf fpAluUnits fpAlu)
  let fpMult ← Exec.ofExcept (unitOf fpMultDivUnits fpMultDiv)
  modifyGem5SourceCode .fuPool fuPoolPattern (fuPool alu multDiv fp fpMult)

/-! ### All of them -/

/-- `embedding[i]`. -/
def entry (embedding : List ℤ) (i : ℕ) : GenM ℤ := Exec.ofExcept (listItem embedding i)

/-- `generate_simulator` of the manager, up to the compilation. -/
def generateSources (embedding : List ℤ) : GenM Unit := do
  generatePipelineWidth (← entry embedding 0)
  generateFetchBuffer (← entry embedding 1)
  generateFetchQueue (← entry embedding 2)
  generateLocalPredictor (← entry embedding 3)
  generateGlobalPredictor (← entry embedding 4)
  generateChoicePredictor (← entry embedding 5)
  generateRas (← entry embedding 6)
  generateBtb (← entry embedding 7)
  generateRob (← entry embedding 8)
  generatePhysIntReg (← entry embedding 9)
  generatePhysFpReg (← entry embedding 10)
  generateIq (← entry embedding 11)
  generateLq (← entry embedding 12)
  generateSq (← entry embedding 13)
  generateEu (← entry embedding 14) (← entry embedding 15) (← entry embedding 16)
    (← entry embedding 17)

end ArchExplorer.Simulation
