import Mathlib.Data.List.Basic
import Mathlib.Data.List.Nodup
import Mathlib.Algebra.BigOperators.Group.List.Basic
import Mathlib.Tactic

/-!
# Dictionaries in insertion order

A dictionary lists its items in the order in which their keys were first set. Setting a key again
replaces the value and keeps the position.
-/

namespace ArchExplorer.Lib

variable {K V : Type}

/-- A dictionary: its items, with pairwise distinct keys. -/
structure Dict (K V : Type) where
  items : List (K × V)
  nodup : (items.map Prod.fst).Nodup

namespace Dict

/-- The keys in insertion order. -/
def keys (d : Dict K V) : List K := d.items.map Prod.fst

/-- The values in insertion order. -/
def values (d : Dict K V) : List V := d.items.map Prod.snd

/-- The dictionary without items. -/
def empty : Dict K V := ⟨[], List.nodup_nil⟩

lemma nodup_keys (d : Dict K V) : d.keys.Nodup := d.nodup

@[simp] lemma keys_empty : (empty : Dict K V).keys = [] := rfl

variable [DecidableEq K]

/-- The value of the first item with the key. -/
def lookupItems (k : K) : List (K × V) → Option V
  | []            => none
  | (k', w) :: is => if k' = k then some w else lookupItems k is

/-- Look a key up. -/
def get? (d : Dict K V) (k : K) : Option V := lookupItems k d.items

/-- Replace the value of the first item with the key, or append an item. -/
def setItems (k : K) (v : V) : List (K × V) → List (K × V)
  | []            => [(k, v)]
  | (k', w) :: is => if k' = k then (k, v) :: is else (k', w) :: setItems k v is

lemma map_fst_setItems (k : K) (v : V) (is : List (K × V)) :
    (setItems k v is).map Prod.fst =
      if k ∈ is.map Prod.fst then is.map Prod.fst else is.map Prod.fst ++ [k] := by
  induction is with
  | nil => simp [setItems]
  | cons i is ih =>
    obtain ⟨k', w⟩ := i
    by_cases h : k' = k
    · simp [setItems, h]
    · rw [setItems, if_neg h, List.map_cons, ih]
      simp only [List.map_cons, List.mem_cons, Ne.symm h, false_or]
      split_ifs
      · rfl
      · rw [List.cons_append]

lemma lookupItems_setItems (k : K) (v : V) (is : List (K × V)) (k' : K) :
    lookupItems k' (setItems k v is) = if k' = k then some v else lookupItems k' is := by
  induction is with
  | nil => simp [setItems, lookupItems, eq_comm]
  | cons i is ih =>
    obtain ⟨l, w⟩ := i
    by_cases hl : l = k
    · subst hl
      by_cases h : k' = l
      · simp [setItems, lookupItems, h]
      · simp [setItems, lookupItems, h, Ne.symm h]
    · rw [setItems, if_neg hl, lookupItems, lookupItems, ih]
      by_cases h : l = k'
      · subst h
        simp [hl]
      · simp [h]

lemma setItems_of_notMem {k : K} {is : List (K × V)} (h : k ∉ is.map Prod.fst) (v : V) :
    setItems k v is = is ++ [(k, v)] := by
  induction is with
  | nil => rfl
  | cons i is ih =>
    rw [List.map_cons, List.mem_cons, not_or] at h
    rw [setItems, if_neg (Ne.symm h.1), ih h.2, List.cons_append]

/-- Set the value of a key. -/
def set (d : Dict K V) (k : K) (v : V) : Dict K V where
  items := setItems k v d.items
  nodup := by
    rw [map_fst_setItems]
    split_ifs with h
    · exact d.nodup
    · refine List.nodup_append.mpr ⟨d.nodup, List.nodup_singleton k, ?_⟩
      rintro a ha b hb rfl
      exact h (List.mem_singleton.mp hb ▸ ha)

/-- A new key comes last. -/
lemma items_set_of_notMem {d : Dict K V} {k : K} (h : k ∉ d.keys) (v : V) :
    (d.set k v).items = d.items ++ [(k, v)] := setItems_of_notMem h v

/-- Setting new keys one after the other lists them in this order. -/
lemma items_foldl_set {is : List (K × V)} {d : Dict K V}
    (h : (d.keys ++ is.map Prod.fst).Nodup) :
    (is.foldl (fun d i => d.set i.1 i.2) d).items = d.items ++ is := by
  induction is generalizing d with
  | nil => simp
  | cons i is ih =>
    have hi : i.1 ∉ d.keys := fun hmem =>
      (List.nodup_append.mp h).2.2 i.1 hmem i.1 List.mem_cons_self rfl
    have hitems := items_set_of_notMem hi i.2
    have hkeys : (d.set i.1 i.2).keys = d.keys ++ [i.1] := by
      rw [keys, hitems, List.map_append]
      rfl
    rw [List.foldl_cons, ih (by rw [hkeys, List.append_assoc]; exact h), hitems, List.append_assoc]
    rfl

omit [DecidableEq K] in
lemma ext_items {d d' : Dict K V} (h : d.items = d'.items) : d = d' := by
  cases d
  cases d'
  cases h
  rfl

/-- A dictionary is read back from its items. -/
lemma foldl_set_items (d : Dict K V) :
    d.items.foldl (fun d i => d.set i.1 i.2) empty = d :=
  ext_items (items_foldl_set (d := empty) d.nodup)

@[simp] lemma get?_empty (k : K) : (empty : Dict K V).get? k = none := rfl

lemma get?_set (d : Dict K V) (k : K) (v : V) (k' : K) :
    (d.set k v).get? k' = if k' = k then some v else d.get? k' :=
  lookupItems_setItems k v d.items k'

@[simp] lemma get?_set_self (d : Dict K V) (k : K) (v : V) : (d.set k v).get? k = some v := by
  rw [get?_set, if_pos rfl]

lemma get?_set_ne (d : Dict K V) {k k' : K} (v : V) (h : k' ≠ k) :
    (d.set k v).get? k' = d.get? k' := by
  rw [get?_set, if_neg h]

lemma keys_set (d : Dict K V) (k : K) (v : V) :
    (d.set k v).keys = if k ∈ d.keys then d.keys else d.keys ++ [k] :=
  map_fst_setItems k v d.items

lemma mem_keys_set {d : Dict K V} {k k' : K} {v : V} :
    k' ∈ (d.set k v).keys ↔ k' = k ∨ k' ∈ d.keys := by
  rw [keys_set]
  split_ifs with h
  · refine ⟨Or.inr, ?_⟩
    rintro (rfl | h')
    · exact h
    · exact h'
  · rw [List.mem_append, List.mem_singleton, or_comm]

/-- The items are the pairs that are found by a lookup. -/
lemma mem_items_iff {d : Dict K V} {k : K} {v : V} : (k, v) ∈ d.items ↔ d.get? k = some v := by
  obtain ⟨is, hnodup⟩ := d
  simp only [get?]
  induction is with
  | nil => simp [lookupItems]
  | cons i is ih =>
    obtain ⟨l, w⟩ := i
    rw [List.map_cons, List.nodup_cons] at hnodup
    rw [List.mem_cons, ih hnodup.2, lookupItems]
    by_cases h : l = k
    · subst h
      have hnone : lookupItems l is ≠ some v := by
        intro hsome
        exact hnodup.1 (List.mem_map.mpr ⟨(l, v), (ih hnodup.2).mpr hsome, rfl⟩)
      simp [hnone, eq_comm]
    · simp [h, Ne.symm h]

lemma mem_keys_iff {d : Dict K V} {k : K} : k ∈ d.keys ↔ ∃ v, d.get? k = some v := by
  simp only [keys, List.mem_map, ← mem_items_iff]
  constructor
  · rintro ⟨⟨l, v⟩, hmem, rfl⟩
    exact ⟨v, hmem⟩
  · rintro ⟨v, hmem⟩
    exact ⟨(k, v), hmem, rfl⟩

lemma mem_keys_of_get? {d : Dict K V} {k : K} {v : V} (h : d.get? k = some v) : k ∈ d.keys :=
  mem_keys_iff.mpr ⟨v, h⟩

lemma get?_eq_none_iff {d : Dict K V} {k : K} : d.get? k = none ↔ k ∉ d.keys := by
  rw [mem_keys_iff]
  cases d.get? k <;> simp

/-- The items of a dictionary whose values are given by a function. -/
lemma items_eq_map {d : Dict K V} {f : K → V} (h : ∀ k ∈ d.keys, d.get? k = some (f k)) :
    d.items = d.keys.map fun k => (k, f k) := by
  have hitem : ∀ i ∈ d.items, (i.1, f i.1) = i := by
    intro i hi
    have hval := (h i.1 (List.mem_map_of_mem hi)).symm.trans (mem_items_iff.mp hi)
    rw [Option.some.inj hval]
  rw [keys, List.map_map]
  exact (List.map_id _).symm.trans (List.map_congr_left fun i hi => (hitem i hi).symm)

/-- Setting keys that are present keeps the order of the keys. -/
lemma foldl_set_present {is : List (K × V)} {d : Dict K V} (hnodup : (is.map Prod.fst).Nodup)
    (hmem : ∀ i ∈ is, i.1 ∈ d.keys) :
    (is.foldl (fun d i => d.set i.1 i.2) d).keys = d.keys ∧
      ∀ i ∈ is, (is.foldl (fun d i => d.set i.1 i.2) d).get? i.1 = some i.2 := by
  have hother (is : List (K × V)) (d : Dict K V) (k : K) (hk : k ∉ is.map Prod.fst) :
      (is.foldl (fun d i => d.set i.1 i.2) d).get? k = d.get? k := by
    induction is generalizing d with
    | nil => rfl
    | cons i is ih =>
      rw [List.map_cons, List.mem_cons, not_or] at hk
      rw [List.foldl_cons, ih _ hk.2, get?_set_ne _ _ hk.1]
  induction is generalizing d with
  | nil => exact ⟨rfl, nofun⟩
  | cons i is ih =>
    rw [List.map_cons, List.nodup_cons] at hnodup
    obtain ⟨hi, hmem⟩ := List.forall_mem_cons.mp hmem
    have hkeys : (d.set i.1 i.2).keys = d.keys := (keys_set ..).trans (if_pos hi)
    obtain ⟨hfold, hget⟩ := ih hnodup.2 (d := d.set i.1 i.2) fun j hj => hkeys ▸ hmem j hj
    rw [List.foldl_cons]
    refine ⟨hfold.trans hkeys, List.forall_mem_cons.mpr ⟨?_, hget⟩⟩
    rw [hother is _ _ hnodup.1, get?_set_self]

/-- Setting a key that is present exchanges one summand. -/
lemma sum_values_set {d : Dict K ℤ} {k : K} {w : ℤ} (h : d.get? k = some w) (v : ℤ) :
    (d.set k v).values.sum = d.values.sum - w + v := by
  obtain ⟨is, hnodup⟩ := d
  simp only [get?] at h
  simp only [values, set]
  clear hnodup
  induction is with
  | nil => simp [lookupItems] at h
  | cons i is ih =>
    obtain ⟨l, u⟩ := i
    rw [lookupItems] at h
    by_cases hl : l = k
    · rw [if_pos hl, Option.some.injEq] at h
      simp only [setItems, if_pos hl, List.map_cons, List.sum_cons, h]
      ring
    · rw [if_neg hl] at h
      simp only [setItems, if_neg hl, List.map_cons, List.sum_cons, ih h]
      ring

end Dict

end ArchExplorer.Lib
