import ArchExplorer.Lib.Machine
import ArchExplorer.Lib.Ring

/-!
# Indices of the reorder buffer

The simulator numbers the entries of the reorder buffer with a counter: an instruction gets the
counter modulo the number of entries, and the counter is taken back for every instruction that a
squash walks over. There is one thread.
-/

namespace ArchExplorer.Gem5

open ArchExplorer.Lib Ring

structure RobInst where
  seqNum : ℕ
  rob : ℕ
  squashed : Bool
  deriving DecidableEq, Repr

/-- The reorder buffer, from the oldest to the youngest instruction. The iterator `squashIt` is a
position in the list, or none at its end. -/
structure Rob where
  numEntries : ℕ
  squashWidth : ℕ
  instList : List RobInst
  squashIt : Option ℕ
  squashedSeqNum : ℕ
  doneSquashing : Bool
  robIdx : UInt64
  deriving DecidableEq, Repr

namespace Rob

def resetState (numEntries squashWidth : ℕ) : Rob where
  numEntries := numEntries
  squashWidth := squashWidth
  instList := []
  squashIt := none
  squashedSeqNum := 0
  doneSquashing := true
  robIdx := 0

def insertInst (s : Rob) (seqNum : ℕ) : Rob :=
  { s with
    instList := s.instList ++ [⟨seqNum, s.robIdx.toNat % s.numEntries, false⟩]
    robIdx := s.robIdx + 1 }

/-- Remove the oldest instruction. An iterator that points to it would dangle. -/
def retireHead (s : Rob) : Option Rob :=
  match s.instList, s.squashIt with
  | [],        _            => none
  | _ :: rest, none         => some { s with instList := rest }
  | _ :: _,    some 0       => none
  | _ :: rest, some (i + 1) => some { s with instList := rest, squashIt := some i }

/-- The end of a squash. -/
def finishSquash (s : Rob) : Rob := { s with squashIt := none, doneSquashing := true }

/-- Mark the instruction at the iterator. -/
def squashInst (s : Rob) (i : ℕ) (inst : RobInst) : Rob :=
  { s with
    instList := s.instList.set i { inst with squashed := true }
    robIdx := s.robIdx - 1 }

/-- The loop of `doSquash`. The head of the list ends the squash. -/
def squashLoop : ℕ → Rob → Rob
  | 0,     s => s
  | k + 1, s =>
    match s.squashIt with
    | none   => s
    | some i =>
      match s.instList[i]? with
      | none      => s
      | some inst =>
        if s.squashedSeqNum < inst.seqNum then
          if i = 0 then finishSquash (squashInst s i inst)
          else squashLoop k { squashInst s i inst with squashIt := some (i - 1) }
        else s

/-- The instruction at the iterator. -/
def current (s : Rob) : Option RobInst := s.squashIt.bind fun i => s.instList[i]?

/-- The squash is done when the iterator has reached an instruction that stays. -/
def checkDone (s : Rob) : Rob :=
  match s.current with
  | none      => s
  | some inst => if inst.seqNum ≤ s.squashedSeqNum then finishSquash s else s

/-- How many instructions are squashed at once; all of them if the thread exits. -/
def numInstsToSquash (s : Rob) (exiting : Bool) : ℕ :=
  if exiting then s.numEntries else s.squashWidth

def doSquash (s : Rob) (exiting : Bool) : Option Rob :=
  match s.current with
  | none      => none
  | some inst =>
    if inst.seqNum < s.squashedSeqNum then some (finishSquash s)
    else some (checkDone (squashLoop (s.numInstsToSquash exiting) s))

/-- Start at the youngest instruction. -/
def startSquash (s : Rob) (squashNum : ℕ) : Rob :=
  { s with
    doneSquashing := false
    squashedSeqNum := squashNum
    squashIt := some (s.instList.length - 1) }

def squash (s : Rob) (squashNum : ℕ) (exiting : Bool) : Option Rob :=
  if s.instList = [] then some s else (s.startSquash squashNum).doSquash exiting

/-- The calls that change the buffer. Instructions are inserted while there is a free entry and no
squash is in progress, and a squash is continued until it is done. -/
inductive Call where
  | insertInst (seqNum : ℕ)
  | retireHead
  | squash (squashNum : ℕ) (exiting : Bool)
  | doSquash (exiting : Bool)

def step (s : Rob) : Call → Option Rob
  | .insertInst seqNum        =>
    if s.doneSquashing ∧ s.instList.length < s.numEntries then some (s.insertInst seqNum) else none
  | .retireHead               => s.retireHead
  | .squash squashNum exiting => s.squash squashNum exiting
  | .doSquash exiting         => if s.doneSquashing then none else s.doSquash exiting

/-- The instructions that are not squashed. -/
def live (s : Rob) : List RobInst := s.instList.filter fun inst => !inst.squashed

/-- The instructions that are not squashed have distinct and consecutive indices. -/
def Consecutive (s : Rob) : Prop :=
  (s.live.map RobInst.rob).Nodup ∧
    (s.live.map RobInst.rob).IsChain fun a b => b = (a + 1) % s.numEntries

/-- A squash finds no squashed instruction among those it walks over, and the counter does not
overflow. -/
def Clean (s : Rob) : Call → Prop
  | .insertInst _       => s.robIdx.toNat + 1 < 2 ^ 64
  | .squash squashNum _ => ∀ inst ∈ s.instList, squashNum < inst.seqNum → inst.squashed = false
  | _                   => True

instance (s : Rob) : ∀ call, Decidable (Clean s call)
  | .insertInst _ => inferInstanceAs (Decidable (s.robIdx.toNat + 1 < 2 ^ 64))
  | .squash squashNum _ => inferInstanceAs
      (Decidable (∀ inst ∈ s.instList, squashNum < inst.seqNum → inst.squashed = false))
  | .retireHead => isTrue trivial
  | .doSquash _ => isTrue trivial

/-! ### The counter -/

/-- The counter is one past the index of the youngest instruction that is not squashed. Behind the
iterator all instructions are squashed, and before it none that is to be squashed. -/
structure Counted (s : Rob) : Prop where
  counter : ∃ base k, s.live.map RobInst.rob = window s.numEntries base k ∧
    s.robIdx.toNat = base + k
  length_le : s.instList.length ≤ s.numEntries
  iterator : ∀ i, s.squashIt = some i → i < s.instList.length ∧
    (∀ inst ∈ s.instList.drop (i + 1), inst.squashed = true) ∧
    ∀ inst ∈ s.instList.take (i + 1), s.squashedSeqNum < inst.seqNum → inst.squashed = false
  done : s.doneSquashing = true → s.squashIt = none

variable {s s' : Rob}

lemma length_live_le : s.live.length ≤ s.instList.length := List.length_filter_le _ _

lemma Counted.consecutive (h : Counted s) : s.Consecutive := by
  obtain ⟨base, k, hlive, -⟩ := h.counter
  have hk : k ≤ s.numEntries :=
    calc k = (s.live.map RobInst.rob).length := by rw [hlive, length_window]
      _ = s.live.length := List.length_map _
      _ ≤ s.numEntries := length_live_le.trans h.length_le
  rw [Consecutive, hlive]
  exact ⟨nodup_window hk, isChain_window⟩

lemma counted_resetState (numEntries squashWidth : ℕ) :
    Counted (resetState numEntries squashWidth) where
  counter := ⟨0, 0, rfl, rfl⟩
  length_le := Nat.zero_le _
  iterator := by simp [resetState]
  done _ := rfl

lemma Counted.insertInst (h : Counted s) (hdone : s.doneSquashing = true)
    (hfree : s.instList.length < s.numEntries) (hmax : s.robIdx.toNat + 1 < 2 ^ 64) (seqNum : ℕ) :
    Counted (s.insertInst seqNum) where
  counter := by
    obtain ⟨base, k, hlive, hidx⟩ := h.counter
    refine ⟨base, k + 1, ?_, ?_⟩
    · have happend : (s.insertInst seqNum).live =
          s.live ++ [⟨seqNum, s.robIdx.toNat % s.numEntries, false⟩] := by
        simp [live, Rob.insertInst]
      rw [happend, List.map_append, hlive, hidx, window_succ]
      rfl
    · have hadd : (s.robIdx + 1).toNat = s.robIdx.toNat + 1 := by
        rw [UInt64.toNat_add]
        exact Nat.mod_eq_of_lt hmax
      change (s.robIdx + 1).toNat = _
      omega
  length_le := by
    rw [Rob.insertInst, List.length_append]
    exact hfree
  iterator i hi := by
    rw [Rob.insertInst, h.done hdone] at hi
    cases hi
  done _ := h.done hdone

/-- Retiring an instruction drops the first index or none. -/
lemma Counted.retireHead (h : Counted s) (hs : s.retireHead = some s') : Counted s' := by
  obtain ⟨n, w, l, it, num, fin, idx⟩ := s
  cases l with
  | nil => cases hs
  | cons inst rest =>
    have hcounter : ∃ base k, (rest.filter fun inst => !inst.squashed).map RobInst.rob =
        window n base k ∧ idx.toNat = base + k := by
      obtain ⟨base, k, hlive, hidx⟩ := h.counter
      by_cases hsq : inst.squashed
      · exact ⟨base, k, by simpa [live, hsq] using hlive, hidx⟩
      · cases k with
        | zero => simp [live, hsq] at hlive
        | succ k =>
          refine ⟨base + 1, k, ?_, hidx.trans (by omega)⟩
          rw [window_succ_eq_cons] at hlive
          simpa [live, hsq] using (List.cons.inj (by simpa [live, hsq] using hlive)).2
    have hlength : rest.length ≤ n := (Nat.le_succ _).trans h.length_le
    rcases it with _ | _ | i
    · obtain rfl := Option.some.inj hs
      exact ⟨hcounter, hlength, fun i hi => (by cases hi), h.done⟩
    · cases hs
    · obtain rfl := Option.some.inj hs
      obtain ⟨hlt, hafter, hbefore⟩ := h.iterator (i + 1) rfl
      refine ⟨hcounter, hlength, fun j hj => ?_, fun hfin => ?_⟩
      · obtain rfl : i = j := Option.some.inj hj
        exact ⟨Nat.lt_of_succ_lt_succ hlt, hafter,
          fun inst hinst => hbefore inst (List.mem_cons_of_mem _ hinst)⟩
      · cases h.done hfin

lemma Counted.finishSquash (h : Counted s) : Counted s.finishSquash :=
  ⟨h.counter, h.length_le, fun i hi => (by cases hi), fun _ => rfl⟩

lemma exists_split {α : Type} {l : List α} {i : ℕ} {a : α} (h : l[i]? = some a) :
    ∃ pre post, l = pre ++ a :: post ∧ i = pre.length := by
  obtain ⟨hlt, rfl⟩ := List.getElem?_eq_some_iff.mp h
  refine ⟨l.take i, l.drop (i + 1), ?_, (List.length_take_of_le hlt.le).symm⟩
  rw [List.getElem_cons_drop hlt, List.take_append_drop]

/-- The counter is taken back by one when the youngest instruction that is not squashed is
squashed. -/
lemma Counted.squashInst (h : Counted s) {i : ℕ} {inst : RobInst} (hi : s.squashIt = some i)
    (hinst : s.instList[i]? = some inst) (hnum : s.squashedSeqNum < inst.seqNum) :
    Counted (if i = 0 then Rob.finishSquash (s.squashInst i inst)
      else { s.squashInst i inst with squashIt := some (i - 1) }) := by
  obtain ⟨n, w, l, it, num, fin, idx⟩ := s
  obtain ⟨pre, post, rfl, rfl⟩ := exists_split hinst
  obtain ⟨-, hafter, hbefore⟩ := h.iterator pre.length hi
  have htake : (pre ++ inst :: post).take (pre.length + 1) = pre ++ [inst] :=
    List.take_length_add_append 1
  have hdrop : (pre ++ inst :: post).drop (pre.length + 1) = post :=
    List.drop_length_add_append 1
  simp only [htake, hdrop] at hafter hbefore
  have hlive : inst.squashed = false := hbefore inst (by simp) hnum
  have hpost : post.filter (fun inst => !inst.squashed) = [] := by
    rw [List.filter_eq_nil_iff]
    intro inst hmem
    simp [hafter inst hmem]
  have hset : (pre ++ inst :: post).set pre.length { inst with squashed := true } =
      pre ++ { inst with squashed := true } :: post := by simp
  have hcounter : ∃ base k,
      ((pre ++ { inst with squashed := true } :: post).filter fun inst => !inst.squashed).map
        RobInst.rob = window n base k ∧ (idx - 1).toNat = base + k := by
    obtain ⟨base, k, hwindow, hidx⟩ := h.counter
    simp only [live, List.filter_append, List.filter_cons, hlive, hpost, Bool.not_false, if_true,
      List.map_append] at hwindow
    cases k with
    | zero => simp at hwindow
    | succ k =>
      rw [window_succ] at hwindow
      refine ⟨base, k, ?_, ?_⟩
      · simpa [hpost] using (List.append_inj' hwindow rfl).1
      · have hidx' : idx.toNat = base + (k + 1) := hidx
        rw [UInt64.toNat_sub_of_le _ _ (by rw [UInt64.le_iff_toNat_le, hidx']; simp; omega), hidx']
        simp
  have hlength : (pre ++ { inst with squashed := true } :: post).length ≤ n := by
    simpa using h.length_le
  split_ifs with hzero
  · refine ⟨?_, ?_, fun j hj => (by cases hj), fun _ => rfl⟩
    · simpa only [Rob.finishSquash, Rob.squashInst, live, hset] using hcounter
    · simpa only [Rob.finishSquash, Rob.squashInst, hset] using hlength
  · refine ⟨?_, ?_, fun j hj => ?_, fun hfin => ?_⟩
    · simpa only [Rob.squashInst, live, hset] using hcounter
    · simpa only [Rob.squashInst, hset] using hlength
    · obtain rfl : pre.length - 1 = j := Option.some.inj hj
      have hsucc : pre.length - 1 + 1 = pre.length := Nat.succ_pred_eq_of_ne_zero hzero
      simp only [Rob.squashInst, hset, hsucc]
      refine ⟨by simp; omega, ?_, ?_⟩
      · simpa using hafter
      · intro inst' hmem
        rw [List.take_left] at hmem
        exact hbefore inst' (List.mem_append_left _ hmem)
    · exact absurd (h.done hfin) (by rw [hi]; simp)

lemma Counted.squashLoop (h : Counted s) (k : ℕ) : Counted (squashLoop k s) := by
  induction k generalizing s with
  | zero => exact h
  | succ k ih =>
    rw [Rob.squashLoop]
    split
    · exact h
    · next i hi =>
      split
      · exact h
      · next inst hinst =>
        split_ifs with hnum hzero
        · simpa only [hzero, if_true] using h.squashInst hi hinst hnum
        · exact ih (by simpa only [if_neg hzero] using h.squashInst hi hinst hnum)
        · exact h

lemma Counted.checkDone (h : Counted s) : Counted s.checkDone := by
  rw [Rob.checkDone]
  split
  · exact h
  · split_ifs
    · exact h.finishSquash
    · exact h

lemma Counted.doSquash (h : Counted s) {exiting : Bool} (hs : s.doSquash exiting = some s') :
    Counted s' := by
  rw [Rob.doSquash] at hs
  split at hs
  · cases hs
  · split_ifs at hs
    · exact Option.some.inj hs ▸ h.finishSquash
    · exact Option.some.inj hs ▸ (h.squashLoop _).checkDone

lemma Counted.startSquash (h : Counted s) {squashNum : ℕ} (hne : s.instList ≠ [])
    (hclean : ∀ inst ∈ s.instList, squashNum < inst.seqNum → inst.squashed = false) :
    Counted (s.startSquash squashNum) where
  counter := h.counter
  length_le := h.length_le
  iterator i hi := by
    obtain rfl : s.instList.length - 1 = i := Option.some.inj hi
    have hpos : 0 < s.instList.length := List.length_pos_iff.mpr hne
    refine ⟨Nat.sub_lt hpos one_pos, fun inst hinst => ?_,
      fun inst hinst => hclean inst (List.mem_of_mem_take hinst)⟩
    rw [Nat.sub_add_cancel hpos, Rob.startSquash, List.drop_length] at hinst
    cases hinst
  done hfin := by cases hfin

lemma Counted.squash (h : Counted s) {squashNum : ℕ} {exiting : Bool}
    (hclean : ∀ inst ∈ s.instList, squashNum < inst.seqNum → inst.squashed = false)
    (hs : s.squash squashNum exiting = some s') : Counted s' := by
  rw [Rob.squash] at hs
  split_ifs at hs with hnil
  · exact Option.some.inj hs ▸ h
  · exact (h.startSquash hnil hclean).doSquash hs

lemma Counted.step (h : Counted s) {call : Call} (hclean : Clean s call)
    (hs : s.step call = some s') : Counted s' := by
  cases call with
  | insertInst seqNum =>
    rw [Rob.step] at hs
    split_ifs at hs with hfree
    exact Option.some.inj hs ▸ h.insertInst hfree.1 hfree.2 hclean seqNum
  | retireHead => exact h.retireHead hs
  | squash squashNum exiting => exact h.squash hclean hs
  | doSquash exiting =>
    rw [Rob.step] at hs
    split_ifs at hs
    exact h.doSquash hs

/-- In every run in which no squash walks over a squashed instruction, the instructions that are not
squashed carry distinct and consecutive indices. -/
theorem consecutive_of_clean (numEntries squashWidth : ℕ) (s : Rob)
    (h : Reaches step Clean (resetState numEntries squashWidth) s) : s.Consecutive :=
  (h.invariant (counted_resetState numEntries squashWidth)
    fun _ _ _ hs hclean hstep => hs.step hclean hstep).consecutive

/-- Three instructions of which the youngest is squashed and replaced. -/
theorem consecutive_replaced : ∃ s, Reaches step Clean (resetState 4 8) s ∧ s.Consecutive ∧
    s.instList = [⟨1, 0, false⟩, ⟨2, 1, false⟩, ⟨3, 2, true⟩, ⟨4, 2, false⟩] := by
  have hrun : runCommands step Clean (resetState 4 8) [.insertInst 1, .insertInst 2, .insertInst 3,
      .squash 2 false, .insertInst 4] =
    some ⟨4, 8, [⟨1, 0, false⟩, ⟨2, 1, false⟩, ⟨3, 2, true⟩, ⟨4, 2, false⟩], none, 2, true, 3⟩ := by
    decide +kernel
  have hreaches := Reaches.refl.runCommands hrun
  exact ⟨_, hreaches, consecutive_of_clean 4 8 _ hreaches, rfl⟩

/-- A second squash walks over an instruction that is squashed already, so that the next one gets an
index that is in use. -/
theorem squashedTwice : ∃ s, Reaches step (fun _ _ => True) (resetState 4 8) s ∧
    s.instList = [⟨1, 0, false⟩, ⟨2, 1, true⟩, ⟨3, 2, true⟩, ⟨4, 0, false⟩] ∧
    ¬ s.Consecutive := by
  have hrun : runCommands step (fun _ _ => True) (resetState 4 8) [.insertInst 1, .insertInst 2,
      .insertInst 3, .squash 2 false, .squash 1 false, .insertInst 4] =
    some ⟨4, 8, [⟨1, 0, false⟩, ⟨2, 1, true⟩, ⟨3, 2, true⟩, ⟨4, 0, false⟩], none, 1, true, 1⟩ := by
    decide +kernel
  exact ⟨_, Reaches.refl.runCommands hrun, rfl, fun h => absurd h.1 (by decide)⟩

end Rob

end ArchExplorer.Gem5
