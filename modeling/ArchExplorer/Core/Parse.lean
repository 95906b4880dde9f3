import ArchExplorer.Core.Instruction
import ArchExplorer.Lib.Binary64
import ArchExplorer.Lib.Exec
import ArchExplorer.Lib.Text

/-!
# Parsing of an instruction

`RiscvInstruction.parse` on a line of the trace.
-/

namespace ArchExplorer.Core

open ArchExplorer.Lib
open ArchExplorer.Lib.Text

/-- The exceptions of the parser. -/
inductive ParseError where
  | indexError
  | valueError (literal : String)
  | overflowError
  deriving DecidableEq, Repr

/-- Code of the parser. -/
abbrev ParseM := Except ParseError

/-- `inst[idx]`. -/
def item (inst : List Text) (idx : ℕ) : ParseM Text :=
  match inst[idx]? with
  | some s => .ok s
  | none   => .error .indexError

/-- `int(s)` for an ASCII text. -/
def int (s : Text) : ParseM ℤ :=
  match read s with
  | some i => .ok i
  | none   => .error (.valueError (.ofList s))

/-- `inst[idx].split('=')[1].strip()`. -/
def itemValue (inst : List Text) (idx : ℕ) : ParseM Text := do
  let s ← item inst idx
  let v ← item (s.splitOn '=') 1
  return strip isUnicodeSpace v

/-- `round(tick / 1000)`, where the quotient is a double. -/
def tickToCycle (tick : ℤ) : ParseM ℤ :=
  if 2 ^ 1024 ≤ |toDouble (tick / 1000)| then .error .overflowError
  else return roundEven (toDouble (tick / 1000))

def extractTick (inst : List Text) (idx : ℕ) : ParseM ℤ := do
  let v ← itemValue inst idx
  let tick ← int v
  tickToCycle tick

/-- The assignments of `construct_tick`, from `f(7)` to `f(26)`. -/
def Cycle.ofStamps (f : ℕ → ℤ) : Cycle :=
  ⟨f 7, f 8, f 9, f 10, f 11, f 12, f 13, f 14, f 15, f 16, f 17, f 18, f 19, f 20, f 21, f 22,
    f 23, f 24, f 25, f 26⟩

/-- The time stamps in the order of the trace. -/
def Cycle.toList (t : Cycle) : List ℤ :=
  [t.fetchCacheLine, t.processCacheCompletion, t.fetch, t.decodeSortInsts, t.decode,
    t.renameSortInsts, t.blockFromRob, t.blockFromRf, t.blockFromIq, t.blockFromLq,
    t.blockFromSq, t.rename, t.dispatch, t.insertReadyList, t.issue, t.memory, t.complete,
    t.completeMemory, t.commitHead, t.commit]

lemma Cycle.toList_ofStamps (stamps : List ℤ) (h : stamps.length = 20) :
    (Cycle.ofStamps fun idx => stamps.getD (idx - 7) 0).toList = stamps := by
  have hlist : (List.range 20).map (fun i => stamps.getD i 0) = stamps := by
    apply List.ext_getElem (by simp [h])
    intro i hi hi'
    simp [hi']
  exact hlist

def constructTick (inst : List Text) : ParseM Cycle := do
  let stamps ← (List.range' 7 20).mapM (extractTick inst)
  return .ofStamps fun idx => stamps.getD (idx - 7) 0

def parseSrc (src : Text) : ParseM (List ℤ) :=
  if src = [] then return [-1] else (src.splitOn ',').mapM int

def parseDst (dst : Text) : ParseM ℤ := if dst = [] then return -1 else int dst

def TraceLine.ofItems (inst : List Text) : ParseM TraceLine := do
  let item4 ← item inst 4
  let item5 ← item inst 5
  let cycle ← constructTick inst
  let rob ← itemValue inst 27
  let lq ← itemValue inst 28
  let sq ← itemValue inst 29
  let iq ← itemValue inst 30
  let fu ← itemValue inst 31
  let item32 ← itemValue inst 32
  let src ← parseSrc item32
  let item33 ← itemValue inst 33
  let dst ← parseDst item33
  return { cycle with
    inst := .ofList (strip isUnicodeSpace item4)
    instType := .ofList (strip isUnicodeSpace item5)
    rob := .ofList rob, lq := .ofList lq, sq := .ofList sq, iq := .ofList iq, fu := .ofList fu
    src, dst }

/-- `RiscvInstruction(seq, inst).parse()` for a line with its line feed. -/
def RiscvInstruction.parse (seq : ℕ) (inst : Text) : ParseM RiscvInstruction := do
  let line ← TraceLine.ofItems (inst.splitOn ':')
  return ⟨line, seq⟩

end ArchExplorer.Core
