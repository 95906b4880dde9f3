import Mathlib.Data.List.Basic
import Mathlib.Tactic

/-!
# Improvements

An entry of a sequence improves on the entries before it if it is greater than all of them and than
a bound that is given.
-/

namespace ArchExplorer.Lib

variable {α : Type} [LinearOrder α]

/-- Does entry `k` improve on `a` and on the entries before it? -/
def improves (a : α) (l : List α) (k : ℕ) : Bool :=
  match l[k]? with
  | some b => decide (a < b) && (l.take k).all (· < b)
  | none   => false

/-- The position of the last improvement, and `0` if there is none. -/
def lastImprovement (a : α) (l : List α) : ℕ :=
  ((List.range l.length).filter (improves a l)).getLastD 0

variable {a b : α} {l : List α} {k : ℕ}

lemma improves_append_left (h : k < l.length) : improves a (l ++ [b]) k = improves a l k := by
  rw [improves, improves, List.getElem?_append_left h,
    List.take_append_of_le_length (Nat.le_of_lt h)]

lemma improves_append_self :
    improves a (l ++ [b]) l.length = true ↔ a < b ∧ ∀ c ∈ l, c < b := by
  simp [improves]

/-- The last improvement when an entry is added. -/
lemma lastImprovement_append :
    lastImprovement a (l ++ [b]) =
      if a < b ∧ ∀ c ∈ l, c < b then l.length else lastImprovement a l := by
  have hfilter : (List.range l.length).filter (improves a (l ++ [b])) =
      (List.range l.length).filter (improves a l) :=
    List.filter_congr fun k hk => improves_append_left (List.mem_range.mp hk)
  rw [lastImprovement, List.length_append, List.length_singleton, List.range_succ,
    List.filter_append, hfilter]
  by_cases h : a < b ∧ ∀ c ∈ l, c < b
  · rw [if_pos h, List.filter_singleton, improves_append_self.mpr h]
    simp
  · rw [if_neg h, List.filter_singleton, Bool.of_not_eq_true (mt improves_append_self.mp h)]
    simp [lastImprovement]

end ArchExplorer.Lib
