import ArchExplorer.Deg.Parse
import ArchExplorer.Lib.Text

/-!
# Printing of an instruction

`DynInst::dump_timestamp` and the prefix that the debug logger puts in front of its message: the
line of the trace for a committed instruction of the simulator.
-/

namespace ArchExplorer.Gem5

open ArchExplorer.Lib
open ArchExplorer.Lib.Text

/-- The debug flags that the printer and the logger ask for. The logger's `FmtFlag`, which puts the
name of a flag in front of every message, is off. -/
structure DebugFlags where
  execUser : Bool
  execKernel : Bool
  execAsid : Bool
  execThread : Bool
  execSymbol : Bool
  execOpClass : Bool
  execResult : Bool
  execEffAddr : Bool
  execFetchSeq : Bool
  execCPSeq : Bool
  execFlags : Bool
  deg : Bool
  fmtTicksOff : Bool

/-- The flags of `--debug-flags=Exec`. -/
def DebugFlags.exec : DebugFlags where
  execUser := true
  execKernel := true
  execAsid := false
  execThread := true
  execSymbol := true
  execOpClass := true
  execResult := true
  execEffAddr := true
  execFetchSeq := false
  execCPSeq := false
  execFlags := false
  deg := true
  fmtTicksOff := false

/-- The time stamps of an instruction, in ticks, and the ids of its hardware resources. -/
structure MetaInfo where
  fetchCacheLine : UInt64
  processCacheCompletion : UInt64
  fetch : UInt64
  decodeSortInsts : UInt64
  decodeInsts : UInt64
  renameSortInsts : UInt64
  blockFromRob : UInt64
  blockFromRf : UInt64
  blockFromIq : UInt64
  blockFromLq : UInt64
  blockFromSq : UInt64
  rename : UInt64
  dispatchInsts : UInt64
  addIfReady : UInt64
  scheduleReadyInsts : UInt64
  memory : UInt64
  updateExeInstStats : UInt64
  completeDataAccess : UInt64
  commitHead : UInt64
  commit : UInt64
  rob : Int32
  lq : Int32
  sq : Int32
  iq : Int32
  fu : Int32

/-- What is printed of an instruction. The operation class is one of a RISC-V instruction, whose
result is no vector. -/
structure DynInst where
  /-- The tick of the message. -/
  when : UInt64
  /-- The name of the processor. -/
  name : Text
  inUserMode : Bool
  fullSystem : Bool
  asid : ℕ
  threadId : ℕ
  instAddr : UInt64
  /-- The nearest symbol and the distance to it. -/
  symbol : Option (Text × UInt64)
  /-- The number of a micro-operation. -/
  microPC : Option ℕ
  disassembly : Text
  opClass : Deg.InstType
  predicate : Bool
  data : Option UInt64
  /-- The address of a memory access. -/
  addr : Option UInt64
  fetchSeq : Option ℕ
  cpSeq : Option ℕ
  flags : Text
  metaInfo : MetaInfo
  /-- The flat indices of the source registers. -/
  src : List UInt16
  /-- The flat indices of the destination registers. -/
  dst : List UInt16

/-! ### Formats -/

/-- Right-justified in a field of width `w`. -/
def padLeft (w : ℕ) (s : Text) : Text := List.replicate (w - s.length) ' ' ++ s

/-- Left-justified in a field of width `w`. -/
def padRight (w : ℕ) (s : Text) : Text := s ++ List.replicate (w - s.length) ' '

def hex (n : ℕ) : Text := Nat.toDigits 16 n

/-- The format `%#x`. -/
def hexBase (n : ℕ) : Text := if n = 0 then ['0'] else "0x".toList ++ hex n

/-- The format `%#018x`. -/
def hexFill (n : ℕ) : Text :=
  "0x".toList ++ (List.replicate (16 - (hex n).length) '0' ++ hex n)

/-! ### The message -/

/-- The keys of the time stamps and the stamps, in the order in which they are printed. -/
def MetaInfo.stamps (m : MetaInfo) : List (String × UInt64) :=
  [("FetchCacheLine", m.fetchCacheLine), ("ProcessCacheCompletion", m.processCacheCompletion),
    ("Fetch", m.fetch), ("DecodeSortInsts", m.decodeSortInsts), ("Decode", m.decodeInsts),
    ("RenameSortInsts", m.renameSortInsts), ("BlockFromROB", m.blockFromRob),
    ("BlockFromRF", m.blockFromRf), ("BlockFromIQ", m.blockFromIq),
    ("BlockFromLQ", m.blockFromLq), ("BlockFromSQ", m.blockFromSq), ("Rename", m.rename),
    ("Dispatch", m.dispatchInsts), ("InsertReadyList", m.addIfReady),
    ("Issue", m.scheduleReadyInsts), ("Memory", m.memory), ("Complete", m.updateExeInstStats),
    ("CompleteMemory", m.completeDataAccess), ("CommitHead", m.commitHead),
    ("Commit", m.commit)]

/-- The separator of two fields. -/
def sep : Text := [' ', ':', ' ']

/-- A field behind the first ones. -/
def keyField (key : String) (value : Text) : Text := sep ++ key.toList ++ '=' :: value

def registers (rs : List UInt16) : Text := join ',' (rs.map fun r => ofNat r.toNat)

namespace DynInst

variable (flags : DebugFlags) (i : DynInst)

def symbolText : Text :=
  if flags.execSymbol && (!i.fullSystem || !i.inUserMode) then
    match i.symbol with
    | none              => []
    | some (sym, delta) =>
      if delta = 0 then " @".toList ++ sym
      else " @".toList ++ sym ++ '+' :: ofNat delta.toNat
  else []

def microText : Text :=
  match i.microPC with
  | some pc => '.' :: padLeft 2 (ofNat pc)
  | none    => [' ', ' ', ' ']

/-- The result, the address and the counters of the instruction. -/
def resultText : Text :=
  (if flags.execResult && !i.predicate then "Predicated False".toList else []) ++
  (match i.data with
    | some d => if flags.execResult then " D=".toList ++ hexFill d.toNat else []
    | none   => []) ++
  (match i.addr with
    | some a => if flags.execEffAddr then " A=0x".toList ++ hex a.toNat else []
    | none   => []) ++
  (match i.fetchSeq with
    | some s => if flags.execFetchSeq then "  FetchSeq=".toList ++ ofNat s else []
    | none   => []) ++
  (match i.cpSeq with
    | some s => if flags.execCPSeq then "  CPSeq=".toList ++ ofNat s else []
    | none   => []) ++
  (if flags.execFlags then "  flags=(".toList ++ i.flags ++ [')'] else [])

def stampsText : Text :=
  (i.metaInfo.stamps.map fun p => keyField p.1 (ofNat p.2.toNat)).flatten

def degText : Text :=
  if flags.deg then
    i.stampsText ++ keyField "ROB" (ofInt i.metaInfo.rob.toInt) ++
      keyField "LQ" (ofInt i.metaInfo.lq.toInt) ++ keyField "SQ" (ofInt i.metaInfo.sq.toInt) ++
      keyField "IQ" (ofInt i.metaInfo.iq.toInt) ++ keyField "FU" (ofInt i.metaInfo.fu.toInt) ++
      keyField "SRC" (registers i.src) ++ keyField "DST" (registers i.dst)
  else []

/-- The text that is sent to the logger, without its line feed. -/
def message : Text :=
  (if flags.execAsid then 'A' :: ofNat i.asid ++ [' '] else []) ++
  (if flags.execThread then 'T' :: ofNat i.threadId ++ sep else []) ++
  hexBase i.instAddr.toNat ++ i.symbolText flags ++ i.microText ++ sep ++
  padRight 26 i.disassembly ++ sep ++
  (if flags.execOpClass then i.opClass.name.toList ++ sep else []) ++
  i.resultText flags ++ i.degText flags

def maxTick : UInt64 := 0xffffffffffffffff

/-- The line that the logger writes, without its line feed. -/
def logLine : Text :=
  (if !flags.fmtTicksOff && i.when ≠ maxTick then padLeft 7 (ofNat i.when.toNat) ++ [':', ' ']
    else []) ++
  (if i.name ≠ [] then i.name ++ [':', ' '] else []) ++ i.message flags

/-- The line of the trace with its line feed. Nothing is printed for a mode that is off. -/
def dumpTimestamp : Text :=
  if i.inUserMode && !flags.execUser then []
  else if !i.inUserMode && !flags.execKernel then []
  else i.logLine flags ++ ['\n']

end DynInst

end ArchExplorer.Gem5
