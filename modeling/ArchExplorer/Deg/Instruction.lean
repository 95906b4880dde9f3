import Mathlib.Tactic.Common

/-!
# Instructions of a trace

The records that the trace reader hands to the graph builder: one decoded trace line per
instruction together with its number in the stream, and the predicates on it that the builder
asks for.
-/

namespace ArchExplorer.Deg

/-- The functional unit classes of a trace line. -/
inductive InstType where
  | memRead
  | floatMemRead
  | memWrite
  | floatMemWrite
  | intAlu
  | intMult
  | intDiv
  | floatAdd
  | floatCmp
  | floatCvt
  | floatMult
  | floatMultAcc
  | floatMisc
  | floatDiv
  | floatSqrt
  | noOpClass
  deriving DecidableEq, Repr

/-- The time stamps of one instruction, in cycles. -/
structure Tick where
  fetchCacheLine : UInt64
  processCacheCompletion : UInt64
  fetch : UInt64
  decodeSortInsts : UInt64
  decode : UInt64
  renameSortInsts : UInt64
  blockFromRob : UInt64
  blockFromRf : UInt64
  blockFromIq : UInt64
  blockFromLq : UInt64
  blockFromSq : UInt64
  rename : UInt64
  dispatch : UInt64
  insertReadyList : UInt64
  issue : UInt64
  memory : UInt64
  complete : UInt64
  completeMemory : UInt64
  commitHead : UInt64
  commit : UInt64
  deriving DecidableEq, Repr

/-- One decoded line of the trace. -/
structure TraceLine extends Tick where
  inst : String
  instType : InstType
  pc : UInt64
  src : List Int
  dst : Int
  rob : Int
  lq : Int
  sq : Int
  iq : Int
  fu : Int
  deriving DecidableEq, Repr

namespace TraceLine

def isMem (inst : TraceLine) : Bool :=
  match inst.instType with
  | .memRead | .floatMemRead | .memWrite | .floatMemWrite => true
  | _                                                     => false

def isLoad (inst : TraceLine) : Bool :=
  match inst.instType with
  | .memRead | .floatMemRead => true
  | _                        => false

def isStore (inst : TraceLine) : Bool :=
  match inst.instType with
  | .memWrite | .floatMemWrite => true
  | _                          => false

def isControl (inst : TraceLine) : Bool :=
  inst.inst.startsWith "beq" || inst.inst.startsWith "bne" ||
    inst.inst.startsWith "bltu" || inst.inst.startsWith "blt" ||
    inst.inst.startsWith "bgeu" || inst.inst.startsWith "bge" ||
    inst.inst.startsWith "jalr" || inst.inst.startsWith "jal" ||
    inst.inst.startsWith "c_beqz"

def useIntAlu (inst : TraceLine) : Bool :=
  inst.instType = .intAlu

def useIntMultDiv (inst : TraceLine) : Bool :=
  match inst.instType with
  | .intMult | .intDiv => true
  | _                  => false

def useFpAlu (inst : TraceLine) : Bool :=
  match inst.instType with
  | .floatAdd | .floatCmp | .floatCvt => true
  | _                                 => false

def useFpMultDiv (inst : TraceLine) : Bool :=
  match inst.instType with
  | .floatMult | .floatMultAcc | .floatMisc | .floatDiv | .floatSqrt => true
  | _                                                                => false

def useRdWrPort (inst : TraceLine) : Bool :=
  match inst.instType with
  | .memRead | .memWrite | .floatMemRead | .floatMemWrite => true
  | _                                                     => false

def useIntRf (inst : TraceLine) : Bool :=
  match inst.instType with
  | .intAlu | .intMult | .intDiv
  | .memRead | .memWrite | .floatMemRead | .floatMemWrite => true
  | _                                                     => false

def useFpRf (inst : TraceLine) : Bool :=
  match inst.instType with
  | .floatAdd | .floatCmp | .floatCvt => true
  | _                                 => false

lemma isMem_eq (inst : TraceLine) : inst.isMem = (inst.isLoad || inst.isStore) := by
  unfold isMem isLoad isStore
  cases inst.instType <;> rfl

lemma not_isStore_of_isLoad {inst : TraceLine} (h : inst.isLoad = true) :
    inst.isStore = false := by
  unfold isLoad at h
  unfold isStore
  split at h <;> simp_all

end TraceLine

/-- A trace line and its number in the stream, counted from one. -/
structure RiscvInstruction extends TraceLine where
  instSeq : Nat
  deriving DecidableEq, Repr

/-- The reader: the lines that are left and the number of the last instruction that was read. -/
structure RiscvInstructionStream where
  trace : List TraceLine
  instSeq : Nat
  deriving DecidableEq, Repr

namespace RiscvInstructionStream

/-- Open a trace. -/
def ofTrace (trace : List TraceLine) : RiscvInstructionStream := ⟨trace, 0⟩

/-- Read the next instruction. The number only advances when a line was left. -/
def next (stream : RiscvInstructionStream) : Option RiscvInstruction × RiscvInstructionStream :=
  match stream.trace with
  | []            => (none, stream)
  | line :: trace => (some ⟨line, stream.instSeq + 1⟩, ⟨trace, stream.instSeq + 1⟩)

end RiscvInstructionStream

end ArchExplorer.Deg
