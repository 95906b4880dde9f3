import Mathlib.Tactic
import ArchExplorer.Deg.Instruction
import ArchExplorer.Lib.Exec
import ArchExplorer.Lib.Text

/-!
# The constructor of an instruction

Decoding of a trace line. The line is cut at its colons and each member is read from the segment
at its place.
-/

namespace ArchExplorer.Deg

open ArchExplorer.Lib
open ArchExplorer.Lib.Text

/-- The ways in which the constructor ends without an instruction: the exceptions of the number
conversions, a segment that is not there, and the assertion on the operation class. -/
inductive ParseError where
  | invalidArgument (function : String)
  | outOfRange (function : String)
  | outOfBounds (idx : ℕ)
  | opClass (inst type : String)
  deriving DecidableEq, Repr

/-- Code of the constructor. -/
abbrev ParseM := Except ParseError

/-! ### The standard library -/

/-- `std::stoi`. -/
def stoi (s : Text) : ParseM ℤ :=
  match scan s with
  | none   => .error (.invalidArgument "stoi")
  | some i => if -2 ^ 31 ≤ i ∧ i < 2 ^ 31 then .ok i else .error (.outOfRange "stoi")

/-- `std::stoull`. A minus sign negates modulo `2 ^ 64`. -/
def stoull (s : Text) : ParseM UInt64 :=
  match scan s with
  | none   => .error (.invalidArgument "stoull")
  | some i => if i.natAbs < 2 ^ 64 then .ok (UInt64.ofInt i) else .error (.outOfRange "stoull")

def hexDigit (c : Char) : Option ℕ :=
  if c.isDigit then some (c.toNat - '0'.toNat)
  else if 'a' ≤ c ∧ c ≤ 'f' then some (c.toNat - 'a'.toNat + 10)
  else if 'A' ≤ c ∧ c ≤ 'F' then some (c.toNat - 'A'.toNat + 10)
  else none

def dropHexPrefix : Text → Text
  | '0' :: 'x' :: s => s
  | '0' :: 'X' :: s => s
  | s               => s

def ofHexDigits (s : Text) : ℕ := s.foldl (fun v c => 16 * v + (hexDigit c).getD 0) 0

/-- `>> std::hex`. A number that is too large is read as the largest one, no number as zero. -/
def readHex (s : Text) : UInt64 :=
  match signed (s.dropWhile isSpace) with
  | (neg, t) =>
    match ofHexDigits ((dropHexPrefix t).takeWhile fun c => (hexDigit c).isSome) with
    | v => if 2 ^ 64 ≤ v then UInt64.ofNat (2 ^ 64 - 1)
      else if neg then -UInt64.ofNat v else UInt64.ofNat v

/-! ### The members -/

def cyclePerTick : UInt64 := 1000

namespace InstType

/-- The operation classes in the order in which they are compared. -/
def all : List InstType :=
  [.memRead, .floatMemRead, .memWrite, .floatMemWrite, .intAlu, .intMult, .intDiv, .floatAdd,
    .floatCmp, .floatCvt, .floatMult, .floatMultAcc, .floatMisc, .floatDiv, .floatSqrt, .noOpClass]

/-- The name of an operation class in a trace. -/
def name : InstType → String
  | .memRead       => "MemRead"
  | .floatMemRead  => "FloatMemRead"
  | .memWrite      => "MemWrite"
  | .floatMemWrite => "FloatMemWrite"
  | .intAlu        => "IntAlu"
  | .intMult       => "IntMult"
  | .intDiv        => "IntDiv"
  | .floatAdd      => "FloatAdd"
  | .floatCmp      => "FloatCmp"
  | .floatCvt      => "FloatCvt"
  | .floatMult     => "FloatMult"
  | .floatMultAcc  => "FloatMultAcc"
  | .floatMisc     => "FloatMisc"
  | .floatDiv      => "FloatDiv"
  | .floatSqrt     => "FloatSqrt"
  | .noOpClass     => "No_OpClass"

end InstType

/-- `segments[idx]`. -/
def segment (segments : List Text) (idx : ℕ) : ParseM Text :=
  match segments[idx]? with
  | some s => .ok s
  | none   => .error (.outOfBounds idx)

def setInst (line : Text) : Text := strip isSpace line

def setInstType (inst line : Text) : ParseM InstType :=
  match InstType.all.find? fun t => t.name.toList = strip isSpace line with
  | some t => .ok t
  | none   => .error (.opClass (.ofList inst) (.ofList (strip isSpace line)))

/-- The address stands before the blank and the `@` of a symbol. Without a symbol, and with an `@`
at the start, the position wraps around and the whole segment is read. -/
def setPc (line : Text) : UInt64 :=
  match line.findIdx? (· = '@') with
  | some (pos + 1) => readHex (line.take pos)
  | _              => readHex line

def stamp (segments : List Text) (idx : ℕ) : ParseM UInt64 := do
  let s ← segment segments idx
  let t ← stoull (after '=' s)
  return t / cyclePerTick

/-- The constructor of the time stamps, with `f(7)` to `f(26)` as its arguments. -/
def Tick.ofStamps (f : ℕ → UInt64) : Tick :=
  ⟨f 7, f 8, f 9, f 10, f 11, f 12, f 13, f 14, f 15, f 16, f 17, f 18, f 19, f 20, f 21, f 22,
    f 23, f 24, f 25, f 26⟩

/-- The time stamps in the order of the trace. -/
def Tick.toList (t : Tick) : List UInt64 :=
  [t.fetchCacheLine, t.processCacheCompletion, t.fetch, t.decodeSortInsts, t.decode,
    t.renameSortInsts, t.blockFromRob, t.blockFromRf, t.blockFromIq, t.blockFromLq,
    t.blockFromSq, t.rename, t.dispatch, t.insertReadyList, t.issue, t.memory, t.complete,
    t.completeMemory, t.commitHead, t.commit]

lemma Tick.toList_ofStamps (stamps : List UInt64) (h : stamps.length = 20) :
    (Tick.ofStamps fun idx => stamps.getD (idx - 7) 0).toList = stamps := by
  have hlist : (List.range 20).map (fun i => stamps.getD i 0) = stamps := by
    apply List.ext_getElem (by simp [h])
    intro i hi hi'
    simp [hi']
  exact hlist

def setEventTick (segments : List Text) : ParseM Tick := do
  let stamps ← (List.range' 7 20).mapM (stamp segments)
  return .ofStamps fun idx => stamps.getD (idx - 7) 0

/-- The common body of `set_rob`, `set_lq`, `set_sq`, `set_iq` and `set_fu`. -/
def setId (segments : List Text) (idx : ℕ) : ParseM ℤ := do
  let line ← segment segments idx
  stoi (after '=' line)

/-- The registers of `src_line`. -/
def srcRegs (srcLine : Text) : ParseM (List ℤ) :=
  if ',' ∈ srcLine then
    ((splitCompress ',' (strip isSpace srcLine)).filter (· ≠ [])).mapM stoi
  else if strip isSpace srcLine = [] then return []
  else return [← stoi (strip isSpace srcLine)]

def setSrcReg (line : Text) : ParseM (List ℤ) := srcRegs (after '=' line)

/-- The register in what follows the equality sign. -/
def dstReg (dstLine : Text) : ParseM ℤ := if dstLine = [] then return -1 else stoi dstLine

def setDstReg (line : Text) : ParseM ℤ := dstReg (after '=' line)

def TraceLine.ofSegments (segments : List Text) : ParseM TraceLine := do
  let seg4 ← segment segments 4
  let seg5 ← segment segments 5
  let instType ← setInstType (setInst seg4) seg5
  let seg3 ← segment segments 3
  let tick ← setEventTick segments
  let rob ← setId segments 27
  let lq ← setId segments 28
  let sq ← setId segments 29
  let iq ← setId segments 30
  let fu ← setId segments 31
  let seg32 ← segment segments 32
  let src ← setSrcReg seg32
  let seg33 ← segment segments 33
  let dst ← setDstReg seg33
  return { tick with
    inst := .ofList (setInst seg4), instType, pc := setPc seg3, src, dst, rob, lq, sq, iq, fu }

/-- The constructor of an instruction from a line without its line feed. -/
def RiscvInstruction.ofLine (line : Text) (instSeq : ℕ) : ParseM RiscvInstruction := do
  let inst ← TraceLine.ofSegments (splitCompress ':' line)
  return ⟨inst, instSeq⟩

end ArchExplorer.Deg
