import Std.Data.TreeMap
import Mathlib.Data.List.Induction
import Mathlib.Tactic.Common

/-!
# Ordered maps whose subscript creates entries

`touch` reads an entry of an ordered map and `update` changes it; both create a missing entry with
a default value. An entry that exists keeps the key it was created with, also when it is reached
through another key that compares equal. The comparison therefore need not be injective, and
`keys` are the keys that were stored.
-/

namespace ArchExplorer.Lib

variable {K A : Type} {cmp : K → K → Ordering}

/-- An ordered map. -/
abbrev OrdMap (K A : Type) (cmp : K → K → Ordering) := Std.TreeMap K A cmp

namespace OrdMap

/-- Create the entry of `k` with value `a` if there is none. -/
def touch (t : OrdMap K A cmp) (k : K) (a : A) : OrdMap K A cmp := t.insertIfNew k a

/-- Apply `f` to the entry of `k`, which is created with value `a` if there is none. -/
def update (t : OrdMap K A cmp) (k : K) (a : A) (f : A → A) : OrdMap K A cmp :=
  t.alter (t.getKeyD k k) fun o => some (f (o.getD a))

variable [Std.TransCmp cmp] {t : OrdMap K A cmp} {k k' : K} {a : A} {f : A → A}

lemma cmp_getKeyD : cmp (t.getKeyD k k) k = .eq := by
  rw [Std.TreeMap.getKeyD_eq_getD_getKey?]
  have h := Std.TreeMap.compare_getKey?_self (t := t) (k := k)
  cases hk : t.getKey? k with
  | none    => exact Std.ReflCmp.compare_self
  | some k' => simpa [hk] using h

@[simp] lemma getD_touch : (touch t k a).getD k' a = t.getD k' a := by
  unfold touch
  rw [Std.TreeMap.getD_insertIfNew]
  split_ifs with h
  · -- the entry is new, so the old map reads as the default there
    have hk' : k' ∉ t := by rw [← Std.TreeMap.mem_congr h.1]; exact h.2
    rw [Std.TreeMap.getD_eq_fallback hk']
  · rfl

lemma getD_update :
    (update t k a f).getD k' a = if cmp k k' = .eq then f (t.getD k' a) else t.getD k' a := by
  unfold update
  have hk := cmp_getKeyD (t := t) (k := k)
  rw [Std.TreeMap.getD_alter, Std.TransCmp.congr_left hk]
  split_ifs with h
  · rw [Option.getD_some, ← Std.TreeMap.getD_eq_getD_getElem?, Std.TreeMap.getD_congr hk,
      Std.TreeMap.getD_congr h]
  · rfl

lemma mem_touch : k' ∈ touch t k a ↔ cmp k k' = .eq ∨ k' ∈ t := Std.TreeMap.mem_insertIfNew

lemma touch_of_mem (h : k ∈ t) {k' : K} : (touch t k a).getKey? k' = t.getKey? k' := by
  rw [touch, Std.TreeMap.getKey?_insertIfNew, if_neg (by simp [h])]

lemma mem_update : k' ∈ update t k a f ↔ cmp k k' = .eq ∨ k' ∈ t := by
  unfold update
  have hk := cmp_getKeyD (t := t) (k := k)
  rw [Std.TreeMap.mem_alter, Std.TransCmp.congr_left hk]
  split_ifs with h <;> simp [h]

/-! ### Stored keys -/

lemma getKey?_update : (update t k a f).getKey? k' =
    if cmp k k' = .eq then some ((t.getKey? k).getD k) else t.getKey? k' := by
  rw [update, Std.TreeMap.getKey?_alter, Std.TransCmp.congr_left (cmp_getKeyD (t := t) (k := k)),
    Option.isSome_some, if_pos rfl, Std.TreeMap.getKeyD_eq_getD_getKey?]

lemma mem_keys_iff : k ∈ t.keys ↔ t.getKey? k = some k := by
  rw [← Std.TreeMap.map_fst_toList_eq_keys, List.mem_map]
  constructor
  · rintro ⟨⟨k, l⟩, h, rfl⟩
    exact (Std.TreeMap.mem_toList_iff_getKey?_eq_some_and_getElem?_eq_some.mp h).1
  · intro h
    have hk : k ∈ t := by
      rw [← Std.TreeMap.isSome_getKey?_iff_mem, h]; rfl
    refine ⟨(k, t.get k hk), ?_, rfl⟩
    rw [Std.TreeMap.mem_toList_iff_getKey?_eq_some_and_getElem?_eq_some]
    exact ⟨h, Std.TreeMap.getElem?_eq_some_getElem hk⟩

lemma mem_toList_iff {b : A} : (k, b) ∈ t.toList ↔ k ∈ t.keys ∧ b = t.getD k a := by
  rw [Std.TreeMap.mem_toList_iff_getKey?_eq_some_and_getElem?_eq_some, mem_keys_iff,
    Std.TreeMap.getD_eq_getD_getElem?]
  constructor
  · rintro ⟨hk, hb⟩
    exact ⟨hk, by simp [hb]⟩
  · rintro ⟨hk, rfl⟩
    have hmem : k ∈ t := by
      rw [← Std.TreeMap.isSome_getKey?_iff_mem, hk]; rfl
    refine ⟨hk, ?_⟩
    rw [Std.TreeMap.getElem?_eq_some_getElem hmem]; rfl

/-- Every key that has an entry has a stored key that compares equal. -/
lemma exists_mem_keys (h : k ∈ t) : ∃ k' ∈ t.keys, cmp k' k = .eq := by
  obtain ⟨k', hk'⟩ := Option.isSome_iff_exists.mp (Std.TreeMap.isSome_getKey?_iff_mem.mpr h)
  have hcmp : cmp k' k = .eq := by
    simpa [hk'] using Std.TreeMap.compare_getKey?_self (t := t) (k := k)
  refine ⟨k', ?_, hcmp⟩
  rw [mem_keys_iff, Std.TreeMap.getKey?_congr hcmp, hk']

lemma mem_keys_touch (h : k' ∈ (touch t k a).keys) : k' = k ∨ k' ∈ t.keys := by
  rw [mem_keys_iff, touch, Std.TreeMap.getKey?_insertIfNew] at h
  split_ifs at h with hc
  · exact .inl (Option.some_inj.mp h).symm
  · exact .inr (mem_keys_iff.mpr h)

lemma mem_keys_update (h : k' ∈ (update t k a f).keys) : k' = k ∨ k' ∈ t.keys := by
  rw [mem_keys_iff, update, Std.TreeMap.getKey?_alter] at h
  split_ifs at h with hc
  · -- the altered entry: its key is the stored one, or `k` if it is new
    rw [Option.some_inj] at h
    rw [← h, Std.TreeMap.getKeyD_eq_getD_getKey?]
    cases hk : t.getKey? k with
    | none    => exact .inl rfl
    | some k₀ =>
      refine .inr (mem_keys_iff.mpr ?_)
      have hcmp : cmp k₀ k = .eq := by
        simpa [hk] using Std.TreeMap.compare_getKey?_self (t := t) (k := k)
      rw [Option.getD_some, Std.TreeMap.getKey?_congr hcmp, hk]
  · exact .inr (mem_keys_iff.mpr h)

/-- A stored key stays. -/
lemma mem_keys_touch_of_mem (h : k' ∈ t.keys) : k' ∈ (touch t k a).keys := by
  rw [mem_keys_iff] at h ⊢
  have hk' : k' ∈ t := by
    rw [← Std.TreeMap.isSome_getKey?_iff_mem, h]; rfl
  rw [touch, Std.TreeMap.getKey?_insertIfNew, if_neg, h]
  rintro ⟨hcmp, hk⟩
  exact hk ((Std.TreeMap.mem_congr hcmp).mpr hk')

lemma mem_keys_update_of_mem (h : k' ∈ t.keys) : k' ∈ (update t k a f).keys := by
  rw [mem_keys_iff] at h ⊢
  rw [update, Std.TreeMap.getKey?_alter, Option.isSome_some, if_pos rfl]
  split_ifs with hcmp
  · -- the entry of `k` is stored under `k'`
    have hk : t.getKey? k = some k' := by
      rw [← Std.TreeMap.getKey?_congr (cmp_getKeyD (t := t) (k := k)),
        Std.TreeMap.getKey?_congr hcmp, h]
    rw [Std.TreeMap.getKeyD_eq_getD_getKey?, hk]
    rfl
  · exact h

@[simp] lemma keys_empty : (∅ : OrdMap K A cmp).keys = [] := by
  rw [List.eq_nil_iff_length_eq_zero, Std.TreeMap.length_keys]
  rfl

lemma nodup_keys : t.keys.Nodup := by
  refine (Std.TreeMap.distinct_keys (t := t)).imp ?_
  rintro k _ h rfl
  exact h Std.ReflCmp.compare_self

end OrdMap

/-! ### Maps into lists -/

/-- An ordered map into lists; a missing entry reads as the empty list. -/
abbrev ListMap (K A : Type) (cmp : K → K → Ordering) := OrdMap K (List A) cmp

namespace ListMap

/-- The list stored for `k`. -/
def entry (t : ListMap K A cmp) (k : K) : List A := t.getD k []

/-- Read the entry of `k`. -/
def touch (t : ListMap K A cmp) (k : K) : ListMap K A cmp := OrdMap.touch t k []

/-- Append `a` to the entry of `k`. -/
def push (t : ListMap K A cmp) (k : K) (a : A) : ListMap K A cmp :=
  OrdMap.update t k [] (· ++ [a])

variable [Std.TransCmp cmp] {t : ListMap K A cmp} {k k' : K} {a : A}

@[simp] lemma entry_empty : entry (∅ : ListMap K A cmp) k = [] := by
  simp [entry]

@[simp] lemma entry_touch : entry (touch t k) k' = entry t k' := OrdMap.getD_touch

lemma entry_push :
    entry (push t k a) k' = if cmp k k' = .eq then entry t k' ++ [a] else entry t k' :=
  OrdMap.getD_update

lemma mem_touch : k' ∈ touch t k ↔ cmp k k' = .eq ∨ k' ∈ t := OrdMap.mem_touch

lemma mem_of_mem_entry (h : a ∈ entry t k) : k ∈ t := by
  by_contra hk
  simp [entry, Std.TreeMap.getD_eq_fallback hk] at h

lemma mem_toList {l : List A} : (k, l) ∈ t.toList ↔ k ∈ t.keys ∧ l = entry t k :=
  OrdMap.mem_toList_iff

/-! ### Collecting a list -/

/-- The map that collects the second components of a list by the first ones. -/
def collect (cmp : K → K → Ordering) (ps : List (K × A)) : ListMap K A cmp :=
  ps.foldl (fun t p => push t p.1 p.2) ∅

omit [Std.TransCmp cmp] in
lemma collect_append_singleton (ps : List (K × A)) (p : K × A) :
    collect cmp (ps ++ [p]) = push (collect cmp ps) p.1 p.2 := by
  rw [collect, List.foldl_append]
  rfl

lemma entry_collect (ps : List (K × A)) :
    entry (collect cmp ps) k = (ps.filter fun p => cmp p.1 k = .eq).map Prod.snd := by
  induction ps using List.reverseRecOn with
  | nil => exact entry_empty
  | append_singleton ps p ih =>
    rw [collect_append_singleton, entry_push, ih, List.filter_append, List.map_append]
    split_ifs with h <;> simp [h]

/-- The key that is stored is the first one of those that compare equal. -/
lemma getKey?_collect (ps : List (K × A)) :
    (collect cmp ps).getKey? k = (ps.find? fun p => cmp p.1 k = .eq).map Prod.fst := by
  induction ps using List.reverseRecOn with
  | nil => exact Std.TreeMap.getKey?_emptyc
  | append_singleton ps p ih =>
    rw [collect_append_singleton, push, OrdMap.getKey?_update, List.find?_append]
    split_ifs with h
    · rw [Std.TreeMap.getKey?_congr h, ih, List.find?_singleton, if_pos (decide_eq_true h)]
      cases ps.find? fun p => cmp p.1 k = .eq <;> rfl
    · rw [ih, List.find?_singleton, if_neg (by simpa using h), Option.or_none]

lemma mem_keys_collect {ps : List (K × A)} :
    k ∈ (collect cmp ps).keys ↔ ∃ p, ps.find? (fun p => cmp p.1 k = .eq) = some p ∧ p.1 = k := by
  rw [OrdMap.mem_keys_iff, getKey?_collect, Option.map_eq_some_iff]

end ListMap

end ArchExplorer.Lib
