import ArchExplorer.Lib.Machine
import ArchExplorer.Lib.Pool

/-!
# Indices of the issue queue

An instruction that enters the issue queue takes the first index of `iq_idx`, and it appends the
index again when it leaves its entry.
-/

namespace ArchExplorer.Gem5

open ArchExplorer.Lib Pool

structure IqInst where
  seqNum : ℕ
  isMemRef : Bool
  issued : Bool
  iq : ℕ
  deriving DecidableEq, Repr

/-- The issue queue with the instructions that hold an entry. -/
structure InstructionQueue where
  numEntries : ℕ
  freeEntries : ℕ
  instList : List IqInst
  iqIdx : List ℕ
  deriving DecidableEq, Repr

namespace InstructionQueue

/-- `std::list::resize`, which appends zeros to a list that is too short. -/
def resize (l : List ℕ) (n : ℕ) : List ℕ := l.take n ++ List.replicate (n - l.length) 0

/-- Resize the list of indices that was there before and append all indices. -/
def resetState (numEntries : ℕ) (old : List ℕ) : InstructionQueue where
  numEntries := numEntries
  freeEntries := numEntries
  instList := []
  iqIdx := resize old numEntries ++ List.range numEntries

/-- Take an entry, as `insert` and `insertNonSpec` do. -/
def takeEntry (s : InstructionQueue) (seqNum : ℕ) (isMemRef : Bool) : Option InstructionQueue :=
  if s.freeEntries = 0 then none
  else match s.iqIdx with
    | []        => none
    | i :: rest => some { s with
        freeEntries := s.freeEntries - 1
        instList := s.instList ++ [⟨seqNum, isMemRef, false, i⟩]
        iqIdx := rest }

def insert (s : InstructionQueue) (seqNum : ℕ) (isMemRef : Bool) : Option InstructionQueue :=
  s.takeEntry seqNum isMemRef

def insertNonSpec (s : InstructionQueue) (seqNum : ℕ) (isMemRef : Bool) :
    Option InstructionQueue :=
  s.takeEntry seqNum isMemRef

/-- Leave an entry. -/
def freeEntry (s : InstructionQueue) (inst : IqInst) : InstructionQueue :=
  { s with
    freeEntries := s.freeEntries + 1
    instList := s.instList.erase inst
    iqIdx := s.iqIdx ++ [inst.iq] }

/-- Mark an instruction as issued. -/
def setIssued (s : InstructionQueue) (inst : IqInst) : InstructionQueue :=
  { s with instList := s.instList.map fun i => if i = inst then { i with issued := true } else i }

/-- Issue an instruction. A memory instruction keeps its entry. -/
def scheduleReadyInsts (s : InstructionQueue) (seqNum : ℕ) : Option InstructionQueue :=
  (s.instList.find? fun i => i.seqNum = seqNum ∧ ¬ i.issued).map fun inst =>
    if inst.isMemRef then s.setIssued inst else s.freeEntry inst

/-- Complete a memory instruction. -/
def wakeDependents (s : InstructionQueue) (seqNum : ℕ) : Option InstructionQueue :=
  (s.instList.find? fun i => i.seqNum = seqNum ∧ i.isMemRef ∧ i.issued).map fun inst =>
    s.freeEntry inst

/-- Squash an instruction that has not been issued or not completed its access. -/
def doSquash (s : InstructionQueue) (seqNum : ℕ) : Option InstructionQueue :=
  (s.instList.find? fun i => i.seqNum = seqNum ∧ (¬ i.issued ∨ i.isMemRef)).map fun inst =>
    s.freeEntry inst

inductive Call where
  | insert (seqNum : ℕ) (isMemRef : Bool)
  | insertNonSpec (seqNum : ℕ) (isMemRef : Bool)
  | scheduleReadyInsts (seqNum : ℕ)
  | wakeDependents (seqNum : ℕ)
  | doSquash (seqNum : ℕ)

def step (s : InstructionQueue) : Call → Option InstructionQueue
  | .insert seqNum isMemRef        => s.insert seqNum isMemRef
  | .insertNonSpec seqNum isMemRef => s.insertNonSpec seqNum isMemRef
  | .scheduleReadyInsts seqNum     => s.scheduleReadyInsts seqNum
  | .wakeDependents seqNum         => s.wakeDependents seqNum
  | .doSquash seqNum               => s.doSquash seqNum

/-- The instructions have distinct indices below the number of entries, and the list of free indices
has each of the others once. -/
structure Pooled (s : InstructionQueue) : Prop where
  nodup : (s.instList.map IqInst.iq).Nodup
  lt : ∀ i ∈ s.instList.map IqInst.iq, i < s.numEntries
  free : s.iqIdx.Perm ((List.range s.numEntries).filter fun i => i ∉ s.instList.map IqInst.iq)
  length_eq : s.iqIdx.length = s.freeEntries

/-! ### The calls keep the indices -/

/-- All indices of the queue. -/
def allIndices (s : InstructionQueue) : Multiset ℕ := indices IqInst.iq s.instList s.iqIdx

/-- What a call leaves as it is. -/
structure Keeps (s s' : InstructionQueue) : Prop where
  numEntries : s'.numEntries = s.numEntries
  indices : s'.allIndices = s.allIndices
  free : s.iqIdx.length = s.freeEntries → s'.iqIdx.length = s'.freeEntries

variable {s s' : InstructionQueue} {inst : IqInst} {call : Call}

lemma keeps_takeEntry {seqNum : ℕ} {isMemRef : Bool}
    (h : s.takeEntry seqNum isMemRef = some s') : Keeps s s' := by
  rw [takeEntry] at h
  split_ifs at h with hfree
  split at h
  · cases h
  · next i rest hidx =>
    obtain rfl := Option.some.inj h
    refine ⟨rfl, ?_, fun hlen => ?_⟩
    · rw [allIndices, allIndices, indices_take, hidx]
    · rw [hidx, List.length_cons] at hlen
      change rest.length = s.freeEntries - 1
      omega

lemma keeps_freeEntry (h : inst ∈ s.instList) : Keeps s (s.freeEntry inst) where
  numEntries := rfl
  indices :=
    indices_give ((List.perm_cons_erase h).trans (List.perm_append_singleton inst _).symm)
  free hlen := by simp [freeEntry, hlen]

lemma keeps_setIssued : Keeps s (s.setIssued inst) where
  numEntries := rfl
  indices := by
    have hmap : (s.setIssued inst).instList.map IqInst.iq = s.instList.map IqInst.iq := by
      rw [setIssued, List.map_map]
      refine List.map_congr_left fun i _ => ?_
      rw [Function.comp_apply]
      split_ifs <;> rfl
    rw [allIndices, allIndices, indices, indices, hmap]
    rfl
  free hlen := hlen

lemma keeps_step (h : s.step call = some s') : Keeps s s' := by
  cases call with
  | insert seqNum isMemRef => exact keeps_takeEntry h
  | insertNonSpec seqNum isMemRef => exact keeps_takeEntry h
  | scheduleReadyInsts seqNum =>
    obtain ⟨inst, hfind, rfl⟩ := Option.map_eq_some_iff.mp h
    split_ifs
    · exact keeps_setIssued
    · exact keeps_freeEntry (List.mem_of_find?_eq_some hfind)
  | wakeDependents seqNum =>
    obtain ⟨inst, hfind, rfl⟩ := Option.map_eq_some_iff.mp h
    exact keeps_freeEntry (List.mem_of_find?_eq_some hfind)
  | doSquash seqNum =>
    obtain ⟨inst, hfind, rfl⟩ := Option.map_eq_some_iff.mp h
    exact keeps_freeEntry (List.mem_of_find?_eq_some hfind)

/-- Every run keeps the indices with which it starts. -/
lemma keeps_of_reaches {s₀ : InstructionQueue}
    (h : Reaches step (fun _ _ => True) s₀ s) : Keeps s₀ s := by
  refine h.invariant ⟨rfl, rfl, id⟩ fun s call s' hs _ hstep => ?_
  have hkeeps := keeps_step hstep
  exact ⟨hkeeps.numEntries.trans hs.numEntries, hkeeps.indices.trans hs.indices,
    fun hlen => hkeeps.free (hs.free hlen)⟩

/-- A run that starts with each index once is right in every state. -/
lemma pooled_of_reaches {s₀ : InstructionQueue} (h : Reaches step (fun _ _ => True) s₀ s)
    (hindices : s₀.allIndices = ↑(List.range s₀.numEntries))
    (hlen : s₀.iqIdx.length = s₀.freeEntries) : Pooled s := by
  have hkeeps := keeps_of_reaches h
  obtain ⟨hnodup, hlt, hfree⟩ := of_indices_eq_range
    (show indices IqInst.iq s.instList s.iqIdx = ↑(List.range s.numEntries) by
      rw [hkeeps.numEntries, ← hindices]
      exact hkeeps.indices)
  exact ⟨hnodup, hlt, hfree, hkeeps.free hlen⟩

/-! ### The reset -/

/-- The reset leaves twice as many indices as there are entries. -/
lemma length_resetState (numEntries : ℕ) (old : List ℕ) :
    (resetState numEntries old).iqIdx.length = 2 * numEntries := by
  simp only [resetState, resize, List.length_append, List.length_take, List.length_replicate,
    List.length_range]
  omega

/-- After a reset the indices are right in every state if and only if the queue has no entries. -/
theorem pooled_iff (numEntries : ℕ) (old : List ℕ) :
    (∀ s, Reaches step (fun _ _ => True) (resetState numEntries old) s → Pooled s) ↔
      numEntries = 0 := by
  constructor
  · intro h
    have hlen := (h _ .refl).length_eq
    rw [length_resetState] at hlen
    change 2 * numEntries = numEntries at hlen
    omega
  · rintro rfl s hs
    refine pooled_of_reaches hs ?_ (length_resetState 0 old)
    have hnil : (resetState 0 old).iqIdx = [] :=
      List.length_eq_zero_iff.mp (length_resetState 0 old)
    rw [allIndices, hnil]
    rfl

/-- Two instructions get the index 0 in a queue of two entries. -/
theorem resetState_duplicates : ∃ s,
    Reaches step (fun _ _ => True) (resetState 2 []) s ∧
    s.instList.map IqInst.iq = [0, 0] ∧ s.iqIdx = [0, 1] ∧ ¬ Pooled s := by
  have hrun : runCommands step (fun _ _ => True) (resetState 2 [])
      [.insert 1 false, .insertNonSpec 2 true] =
    some ⟨2, 0, [⟨1, false, false, 0⟩, ⟨2, true, false, 0⟩], [0, 1]⟩ := by decide
  exact ⟨_, Reaches.refl.runCommands hrun, rfl, rfl, fun h => absurd h.nodup (by decide)⟩

end InstructionQueue

end ArchExplorer.Gem5
