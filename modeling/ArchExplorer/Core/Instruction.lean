import Mathlib.Data.Int.Notation
import Mathlib.Data.Nat.Notation
import Mathlib.Tactic.Common

/-!
# Instructions of a trace

The instruction records of the Python analysis. A record keeps the operation class and the ids of
the hardware resources as the texts of the trace line.
-/

namespace ArchExplorer.Core

/-- The time stamps of one instruction, in cycles. -/
structure Cycle where
  fetchCacheLine : ℤ
  processCacheCompletion : ℤ
  fetch : ℤ
  decodeSortInsts : ℤ
  decode : ℤ
  renameSortInsts : ℤ
  blockFromRob : ℤ
  blockFromRf : ℤ
  blockFromIq : ℤ
  blockFromLq : ℤ
  blockFromSq : ℤ
  rename : ℤ
  dispatch : ℤ
  insertReadyList : ℤ
  issue : ℤ
  memory : ℤ
  complete : ℤ
  completeMemory : ℤ
  commitHead : ℤ
  commit : ℤ
  deriving DecidableEq, Repr

/-- One parsed line of the trace. -/
structure TraceLine extends Cycle where
  inst : String
  instType : String
  rob : String
  lq : String
  sq : String
  iq : String
  fu : String
  src : List ℤ
  dst : ℤ
  deriving DecidableEq, Repr

namespace RiscvInstructionType

def ld : List String := ["MemRead", "FloatMemRead"]

def st : List String := ["MemWrite", "FloatMemWrite"]

def mem : List String := ld ++ st

def ctrl : List String :=
  ["beq", "bne", "bltu", "blt", "bgeu", "bge", "jalr", "jal", "c_beqz"]

def intAlu : List String := ["IntAlu"]

def intMultDiv : List String := ["IntMult", "IntDiv"]

def fpAlu : List String := ["FloatAdd", "FloatCmp", "FloatCvt"]

def fpMultDiv : List String :=
  ["FloatMult", "FloatMultAcc", "FloatMisc", "FloatDiv", "FloatSqrt"]

def rdWrPort : List String := ["MemRead", "MemWrite", "FloatMemRead", "FloatMemWrite"]

def intRf : List String := intAlu ++ intMultDiv ++ rdWrPort

def fpRf : List String := fpAlu ++ fpMultDiv

end RiscvInstructionType

namespace TraceLine

open RiscvInstructionType

def isMem (inst : TraceLine) : Bool := mem.contains inst.instType

def isLoad (inst : TraceLine) : Bool := ld.contains inst.instType

def isStore (inst : TraceLine) : Bool := st.contains inst.instType

def isControl (inst : TraceLine) : Bool := ctrl.any fun c => inst.inst.startsWith c

def useIntAlu (inst : TraceLine) : Bool := intAlu.contains inst.instType

def useIntMultDiv (inst : TraceLine) : Bool := intMultDiv.contains inst.instType

def useFpAlu (inst : TraceLine) : Bool := fpAlu.contains inst.instType

def useFpMultDiv (inst : TraceLine) : Bool := fpMultDiv.contains inst.instType

def useRdWrPort (inst : TraceLine) : Bool := rdWrPort.contains inst.instType

def useIntRf (inst : TraceLine) : Bool := intRf.contains inst.instType

def useFpRf (inst : TraceLine) : Bool := fpRf.contains inst.instType

lemma isMem_eq (inst : TraceLine) : inst.isMem = (inst.isLoad || inst.isStore) := by
  simp only [isMem, mem, isLoad, isStore, List.contains_eq_any_beq, List.any_append]

lemma not_isStore_of_isLoad {inst : TraceLine} (h : inst.isLoad = true) :
    inst.isStore = false := by
  simp only [isLoad, ld, List.contains_eq_mem, List.mem_cons, List.not_mem_nil, or_false,
    decide_eq_true_eq] at h
  rcases h with h | h <;> rw [isStore, h] <;> decide

end TraceLine

/-- A trace line and its number in the stream. -/
structure RiscvInstruction extends TraceLine where
  seq : ℕ
  deriving DecidableEq, Repr

/-- The instructions of a trace. The stream numbers them from one. -/
def instructionStream (trace : List TraceLine) : List RiscvInstruction :=
  (trace.zipIdx 1).map fun p => ⟨p.1, p.2⟩

end ArchExplorer.Core
