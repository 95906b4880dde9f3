import ArchExplorer.Lib.Machine
import ArchExplorer.Lib.Pool

/-!
# Indices of the load and the store queue

A load takes the first index of `ld_idx` and a store the first one of `st_idx`. They are given back
when a load commits, a store completes or a squash removes them.
-/

namespace ArchExplorer.Gem5

open ArchExplorer.Lib Pool

structure LoadEntry where
  seqNum : ℕ
  lq : ℕ
  deriving DecidableEq, Repr

structure StoreEntry where
  seqNum : ℕ
  sq : ℕ
  canWB : Bool
  completed : Bool
  deriving DecidableEq, Repr

/-- The two queues, from the oldest to the youngest entry, with the free indices. -/
structure LsqUnit where
  lqEntries : ℕ
  sqEntries : ℕ
  loadQueue : List LoadEntry
  storeQueue : List StoreEntry
  ldIdx : List ℕ
  stIdx : List ℕ
  deriving DecidableEq, Repr

namespace LsqUnit

/-- The reset of a unit without entries. `resize` fills the lists with zeros, and all indices are
appended. -/
def resetState (lqEntries sqEntries : ℕ) : LsqUnit where
  lqEntries := lqEntries
  sqEntries := sqEntries
  loadQueue := []
  storeQueue := []
  ldIdx := List.replicate lqEntries 0 ++ List.range lqEntries
  stIdx := List.replicate sqEntries 0 ++ List.range sqEntries

def insertLoad (s : LsqUnit) (seqNum : ℕ) : Option LsqUnit :=
  if s.loadQueue.length < s.lqEntries then
    match s.ldIdx with
    | []        => none
    | i :: rest => some { s with loadQueue := s.loadQueue ++ [⟨seqNum, i⟩], ldIdx := rest }
  else none

def insertStore (s : LsqUnit) (seqNum : ℕ) : Option LsqUnit :=
  if s.storeQueue.length < s.sqEntries then
    match s.stIdx with
    | []        => none
    | i :: rest => some { s with
        storeQueue := s.storeQueue ++ [⟨seqNum, i, false, false⟩]
        stIdx := rest }
  else none

def commitLoad (s : LsqUnit) : Option LsqUnit :=
  match s.loadQueue with
  | []           => none
  | load :: rest => some { s with loadQueue := rest, ldIdx := s.ldIdx ++ [load.lq] }

/-- Let the stores up to the first one that is too young write back. -/
def markStores (youngestInst : ℕ) : List StoreEntry → List StoreEntry
  | []             => []
  | store :: rest  =>
    if store.canWB then store :: markStores youngestInst rest
    else if youngestInst < store.seqNum then store :: rest
    else { store with canWB := true } :: markStores youngestInst rest

def commitStores (s : LsqUnit) (youngestInst : ℕ) : LsqUnit :=
  { s with storeQueue := markStores youngestInst s.storeQueue }

/-- Complete the store at a position. The oldest store leaves the queue, and with it the completed
stores that follow. -/
def completeStore (s : LsqUnit) (pos : ℕ) : Option LsqUnit :=
  match pos, s.storeQueue with
  | _,       []            => none
  | 0,       store :: rest => some { s with
      storeQueue := rest.dropWhile StoreEntry.completed
      stIdx := s.stIdx ++ (store :: rest.takeWhile StoreEntry.completed).map StoreEntry.sq }
  | pos + 1, store :: rest => if pos < rest.length then some { s with
      storeQueue := store :: rest.modify pos fun store => { store with completed := true } }
    else none

/-- The loads that a squash removes, the youngest first. -/
def squashedLoads (s : LsqUnit) (squashedNum : ℕ) : List LoadEntry :=
  s.loadQueue.reverse.takeWhile fun load => squashedNum < load.seqNum

/-- The stores that a squash removes, the youngest first. Stores that can write back are
committed. -/
def squashedStores (s : LsqUnit) (squashedNum : ℕ) : List StoreEntry :=
  s.storeQueue.reverse.takeWhile fun store => squashedNum < store.seqNum ∧ ¬ store.canWB

/-- A default value is appended for each load, the index for each store. -/
def squash (s : LsqUnit) (squashedNum : ℕ) : LsqUnit :=
  { s with
    loadQueue := (s.loadQueue.reverse.dropWhile fun load => squashedNum < load.seqNum).reverse
    ldIdx := s.ldIdx ++ (s.squashedLoads squashedNum).map fun _ => 0
    storeQueue := (s.storeQueue.reverse.dropWhile fun store =>
      squashedNum < store.seqNum ∧ ¬ store.canWB).reverse
    stIdx := s.stIdx ++ (s.squashedStores squashedNum).map StoreEntry.sq }

inductive Call where
  | insertLoad (seqNum : ℕ)
  | insertStore (seqNum : ℕ)
  | commitLoad
  | commitStores (youngestInst : ℕ)
  | completeStore (pos : ℕ)
  | squash (squashedNum : ℕ)

def step (s : LsqUnit) : Call → Option LsqUnit
  | .insertLoad seqNum         => s.insertLoad seqNum
  | .insertStore seqNum        => s.insertStore seqNum
  | .commitLoad                => s.commitLoad
  | .commitStores youngestInst => some (s.commitStores youngestInst)
  | .completeStore pos         => s.completeStore pos
  | .squash squashedNum        => some (s.squash squashedNum)

/-- All indices of the load queue. -/
def loadIndices (s : LsqUnit) : Multiset ℕ := indices LoadEntry.lq s.loadQueue s.ldIdx

/-- All indices of the store queue. -/
def storeIndices (s : LsqUnit) : Multiset ℕ := indices StoreEntry.sq s.storeQueue s.stIdx

/-- No index is lost, invented or exchanged. -/
def SameIndices (s s' : LsqUnit) : Prop :=
  s'.loadIndices = s.loadIndices ∧ s'.storeIndices = s.storeIndices

/-- Every load that the call squashes has the index 0. -/
def ZeroLoads (s : LsqUnit) : Call → Prop
  | .squash squashedNum => ∀ load ∈ s.squashedLoads squashedNum, load.lq = 0
  | _                   => True

/-! ### One call -/

variable {s s' : LsqUnit} {call : Call}

lemma map_sq_markStores (youngestInst : ℕ) (stores : List StoreEntry) :
    (markStores youngestInst stores).map StoreEntry.sq = stores.map StoreEntry.sq := by
  induction stores with
  | nil => rfl
  | cons store rest ih =>
    rw [markStores]
    split_ifs
    · rw [List.map_cons, ih, List.map_cons]
    · rfl
    · rw [List.map_cons, ih, List.map_cons]

lemma map_sq_modify (pos : ℕ) (stores : List StoreEntry) :
    (stores.modify pos fun store => { store with completed := true }).map StoreEntry.sq =
      stores.map StoreEntry.sq := by
  induction stores generalizing pos with
  | nil => cases pos <;> rfl
  | cons store rest ih =>
    cases pos with
    | zero => rfl
    | succ pos => rw [List.modify_succ_cons, List.map_cons, ih, List.map_cons]

lemma reverse_perm_split {α : Type} (p : α → Bool) (l : List α) :
    l.Perm ((l.reverse.dropWhile p).reverse ++ l.reverse.takeWhile p) := by
  have hsplit : (l.reverse.takeWhile p ++ l.reverse.dropWhile p).Perm l := by
    rw [List.takeWhile_append_dropWhile]
    exact l.reverse_perm
  exact hsplit.symm.trans (List.perm_append_comm.trans
    ((List.reverse_perm _).symm.append_right _))

/-- A squash keeps the indices of the stores. -/
lemma storeIndices_squash (squashedNum : ℕ) :
    (s.squash squashedNum).storeIndices = s.storeIndices :=
  indices_give (reverse_perm_split _ s.storeQueue)

/-- A squash keeps the indices of the loads if and only if all that it removes are 0. -/
lemma loadIndices_squash (squashedNum : ℕ) :
    (s.squash squashedNum).loadIndices = s.loadIndices ↔
      ∀ load ∈ s.squashedLoads squashedNum, load.lq = 0 := by
  have hgive : indices LoadEntry.lq (s.squash squashedNum).loadQueue
      (s.ldIdx ++ (s.squashedLoads squashedNum).map LoadEntry.lq) = s.loadIndices :=
    indices_give (reverse_perm_split _ s.loadQueue)
  rw [← hgive, loadIndices, indices, indices]
  simp only [squash, ← Multiset.coe_add, add_right_inj]
  rw [Multiset.coe_eq_coe]
  constructor
  · intro hperm load hload
    have hmem := hperm.symm.subset (List.mem_map_of_mem hload)
    obtain ⟨_, -, hzero⟩ := List.mem_map.mp hmem
    exact hzero.symm
  · intro hzero
    rw [List.map_congr_left fun load hload => (hzero load hload).symm]

lemma sameIndices_insertLoad {seqNum : ℕ} (h : s.insertLoad seqNum = some s') :
    SameIndices s s' := by
  rw [insertLoad] at h
  split_ifs at h
  split at h
  · cases h
  · next i rest hidx =>
    obtain rfl := Option.some.inj h
    refine ⟨?_, rfl⟩
    rw [loadIndices, loadIndices, indices_take, hidx]

lemma sameIndices_insertStore {seqNum : ℕ} (h : s.insertStore seqNum = some s') :
    SameIndices s s' := by
  rw [insertStore] at h
  split_ifs at h
  split at h
  · cases h
  · next i rest hidx =>
    obtain rfl := Option.some.inj h
    refine ⟨rfl, ?_⟩
    rw [storeIndices, storeIndices, indices_take, hidx]

lemma sameIndices_commitLoad (h : s.commitLoad = some s') : SameIndices s s' := by
  rw [commitLoad] at h
  split at h
  · cases h
  · next load rest hqueue =>
    obtain rfl := Option.some.inj h
    refine ⟨?_, rfl⟩
    rw [loadIndices, loadIndices, hqueue]
    exact indices_give (List.perm_append_singleton load rest).symm

lemma sameIndices_completeStore {pos : ℕ} (h : s.completeStore pos = some s') :
    SameIndices s s' := by
  unfold completeStore at h
  split at h
  · cases h
  · next store rest hqueue =>
    obtain rfl := Option.some.inj h
    refine ⟨rfl, ?_⟩
    rw [storeIndices, storeIndices, hqueue]
    refine indices_give (List.Perm.trans ?_ List.perm_append_comm)
    rw [List.cons_append, List.takeWhile_append_dropWhile]
  · next pos store rest hqueue =>
    split_ifs at h
    obtain rfl := Option.some.inj h
    refine ⟨rfl, ?_⟩
    rw [storeIndices, storeIndices, indices, indices, hqueue, List.map_cons, map_sq_modify,
      List.map_cons]

lemma sameIndices_step_iff (h : s.step call = some s') : SameIndices s s' ↔ ZeroLoads s call := by
  cases call with
  | insertLoad seqNum => exact iff_of_true (sameIndices_insertLoad h) trivial
  | insertStore seqNum => exact iff_of_true (sameIndices_insertStore h) trivial
  | commitLoad => exact iff_of_true (sameIndices_commitLoad h) trivial
  | commitStores youngestInst =>
    obtain rfl := Option.some.inj h
    refine iff_of_true ⟨rfl, ?_⟩ trivial
    rw [storeIndices, storeIndices, indices, indices, commitStores, map_sq_markStores]
  | completeStore pos => exact iff_of_true (sameIndices_completeStore h) trivial
  | squash squashedNum =>
    obtain rfl := Option.some.inj h
    rw [SameIndices, loadIndices_squash, and_iff_left (storeIndices_squash squashedNum)]
    rfl

/-! ### Whole runs -/

/-- The states of a run, after the initial one. -/
def states : LsqUnit → List Call → Option (List LsqUnit)
  | _, []            => some []
  | s, call :: calls => do
    let s' ← s.step call
    let rest ← states s' calls
    return s' :: rest

/-- Every squash of the run removes only loads with the index 0. -/
def AllZero : LsqUnit → List Call → Prop
  | _, []            => True
  | s, call :: calls => ZeroLoads s call ∧ ∀ s', s.step call = some s' → AllZero s' calls

/-- The indices are the same in all states of a run if and only if every load that is squashed in it
has the index 0. -/
theorem sameIndices_iff (s : LsqUnit) (calls : List Call) (run : List LsqUnit)
    (h : states s calls = some run) :
    (∀ s' ∈ run, SameIndices s s') ↔ AllZero s calls := by
  induction calls generalizing s run with
  | nil =>
    obtain rfl : [] = run := Option.some.inj h
    simp [AllZero]
  | cons call calls ih =>
    obtain ⟨s', hstep, h⟩ := Option.bind_eq_some_iff.mp h
    obtain ⟨rest, hrest, h⟩ := Option.bind_eq_some_iff.mp h
    obtain rfl : s' :: rest = run := Option.some.inj h
    have hnext : (∀ s'', s.step call = some s'' → AllZero s'' calls) ↔ AllZero s' calls := by
      simp [hstep]
    rw [List.forall_mem_cons, AllZero, sameIndices_step_iff hstep, hnext, ← ih s' rest hrest]
    refine and_congr_right fun hzero => forall₂_congr fun s'' _ => ?_
    have hsame := (sameIndices_step_iff hstep).mpr hzero
    rw [SameIndices, SameIndices, hsame.1, hsame.2]

/-- The squashed load has the index 0. -/
theorem sameIndices_squash_zero :
    ∃ run, states (resetState 2 1) [.insertLoad 1, .squash 0] = some run ∧
      ∀ s' ∈ run, SameIndices (resetState 2 1) s' := by
  refine ⟨_, rfl, ?_⟩
  refine (sameIndices_iff (resetState 2 1) [.insertLoad 1, .squash 0] _ rfl).mpr ?_
  refine ⟨trivial, fun s' hs' => ?_⟩
  obtain rfl := Option.some.inj hs'
  refine ⟨?_, fun _ _ => trivial⟩
  rw [ZeroLoads]
  decide

/-- The fourth load has the index 1, which is lost when it is squashed. -/
theorem squash_loses : ∃ run, states (resetState 2 1)
    [.insertLoad 1, .insertLoad 2, .commitLoad, .commitLoad, .insertLoad 3, .insertLoad 4,
      .squash 3] = some run ∧
    ∃ s' ∈ run, s'.ldIdx = [0, 0, 0] ∧ s'.loadQueue = [⟨3, 0⟩] ∧
      ¬ SameIndices (resetState 2 1) s' := by
  refine ⟨_, rfl, ⟨2, 1, [⟨3, 0⟩], [], [0, 0, 0], [0, 0]⟩, ?_, rfl, rfl, fun h => ?_⟩
  · decide
  · exact absurd h.1 (by decide)

end LsqUnit

end ArchExplorer.Gem5
