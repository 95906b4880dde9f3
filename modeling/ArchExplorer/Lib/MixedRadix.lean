import Mathlib.Algebra.BigOperators.Group.List.Basic
import Mathlib.Data.List.Forall2
import Mathlib.Tactic

/-!
# Mixed radix numbers

A number below the product of the radices is determined by its digits, the least significant one
first.
-/

namespace ArchExplorer.Lib.MixedRadix

/-- The digits of a number. -/
def digits : List ℕ → ℕ → List ℕ
  | [],      _ => []
  | r :: rs, n => n % r :: digits rs (n / r)

/-- The number with the given digits. -/
def value : List ℕ → List ℕ → ℕ
  | r :: rs, d :: ds => d + r * value rs ds
  | _,       _       => 0

variable {rs ds : List ℕ} {n : ℕ}

/-- Every digit is below its radix. -/
lemma digits_lt (hpos : ∀ r ∈ rs, 0 < r) (n : ℕ) : List.Forall₂ (· < ·) (digits rs n) rs := by
  induction rs generalizing n with
  | nil => exact .nil
  | cons r rs ih =>
    obtain ⟨hr, hrs⟩ := List.forall_mem_cons.mp hpos
    exact .cons (Nat.mod_lt n hr) (ih hrs (n / r))

lemma value_digits (h : n < rs.prod) : value rs (digits rs n) = n := by
  induction rs generalizing n with
  | nil =>
    rw [List.prod_nil, Nat.lt_one_iff] at h
    rw [h]
    rfl
  | cons r rs ih =>
    rw [List.prod_cons] at h
    rw [digits, value, ih (Nat.div_lt_of_lt_mul h), Nat.mod_add_div]

/-- A digit other than zero has a place that does not exceed the number. -/
lemma prod_take_le {d j : ℕ} (hd : (digits rs n)[j]? = some d) (hne : d ≠ 0) :
    (rs.take j).prod ≤ n := by
  induction rs generalizing n j with
  | nil => simp [digits] at hd
  | cons r rs ih =>
    cases j with
    | zero =>
      rw [digits, List.getElem?_cons_zero] at hd
      have hmod : n % r ≠ 0 := fun h => hne ((Option.some.inj hd).symm.trans h)
      have hn : n ≠ 0 := fun h => hmod (by rw [h, Nat.zero_mod])
      exact Nat.one_le_iff_ne_zero.mpr hn
    | succ j =>
      rw [digits, List.getElem?_cons_succ] at hd
      calc ((r :: rs).take (j + 1)).prod
          = r * (rs.take j).prod := by rw [List.take_succ_cons, List.prod_cons]
        _ ≤ r * (n / r) := Nat.mul_le_mul_left r (ih hd)
        _ ≤ n := Nat.mul_div_le n r

lemma value_lt (h : List.Forall₂ (· < ·) ds rs) : value rs ds < rs.prod := by
  induction h with
  | nil => simp [value]
  | @cons d r ds rs hd _ ih =>
    rw [value, List.prod_cons]
    calc d + r * value rs ds < r + r * value rs ds := Nat.add_lt_add_right hd _
      _ = r * (value rs ds + 1) := by ring
      _ ≤ r * rs.prod := Nat.mul_le_mul_left r ih

lemma digits_value (h : List.Forall₂ (· < ·) ds rs) : digits rs (value rs ds) = ds := by
  induction h with
  | nil => rfl
  | @cons d r ds rs hd _ ih =>
    have hmod : (d + r * value rs ds) % r = d := by
      rw [Nat.add_mul_mod_self_left, Nat.mod_eq_of_lt hd]
    have hdiv : (d + r * value rs ds) / r = value rs ds := by
      rw [Nat.add_mul_div_left _ _ (by omega), Nat.div_eq_of_lt hd, zero_add]
    rw [value, digits, hmod, hdiv, ih]

/-- The value as a sum over the products of the lower radices. -/
lemma sum_eq_value (h : ds.length ≤ rs.length) :
    (ds.zipIdx.map fun p => (rs.take p.2).prod * p.1).sum = value rs ds := by
  induction ds generalizing rs with
  | nil => cases rs <;> simp [value]
  | cons d ds ih =>
    cases rs with
    | nil => simp at h
    | cons r rs =>
      have hshift : (ds.zipIdx 1).map (fun p => ((r :: rs).take p.2).prod * p.1) =
          ds.zipIdx.map fun p => r * ((rs.take p.2).prod * p.1) := by
        rw [List.zipIdx_succ, List.map_map]
        refine List.map_congr_left fun p _ => ?_
        simp only [Function.comp_apply, List.take_succ_cons, List.prod_cons, mul_assoc]
      rw [List.zipIdx_cons, List.map_cons, List.sum_cons, zero_add, hshift, List.sum_map_mul_left,
        ih (by simpa using h), value]
      simp

end ArchExplorer.Lib.MixedRadix
