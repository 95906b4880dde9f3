import Mathlib.Data.List.Basic
import Mathlib.Data.List.Count
import Mathlib.Tactic

/-!
# Lists that a predicate cuts in two

If the elements with a property come first in a list, then they are as many elements from its front
as there are elements with the property.
-/

namespace ArchExplorer.Lib

variable {α : Type*} {p : α → Prop} [DecidablePred p] {l : List α} {a : α} {i : ℕ}

/-- The elements with the property `p` come first. -/
def Cut (p : α → Prop) (l : List α) : Prop := l.Pairwise fun a b => p b → p a

namespace Cut

omit [DecidablePred p] in
/-- No element has the property if the first one has it not. -/
lemma tail_not (h : Cut p (a :: l)) (hp : ¬p a) : ∀ b ∈ l, ¬p b :=
  fun b hb hpb => hp ((List.pairwise_cons.mp h).1 b hb hpb)

lemma countP_tail (h : Cut p (a :: l)) (hp : ¬p a) : l.countP p = 0 :=
  List.countP_eq_zero.mpr (by simpa using h.tail_not hp)

lemma filter_eq_take (h : Cut p l) : l.filter p = l.take (l.countP p) := by
  induction l with
  | nil => rfl
  | cons a l ih =>
    by_cases hp : p a
    · simp [hp, ih h.of_cons]
    · have hnil : l.filter p = [] := List.filter_eq_nil_iff.mpr (by simpa using h.tail_not hp)
      simp [hp, h.countP_tail hp, hnil]

lemma filter_not_eq_drop (h : Cut p l) : l.filter (fun a => ¬p a) = l.drop (l.countP p) := by
  induction l with
  | nil => rfl
  | cons a l ih =>
    by_cases hp : p a
    · simpa [hp] using ih h.of_cons
    · have hself : l.filter (fun a => ¬p a) = l :=
        List.filter_eq_self.mpr (by simpa using h.tail_not hp)
      simpa [hp, h.countP_tail hp] using hself

/-- The position of an element decides whether it has the property. -/
lemma iff_lt_countP (h : Cut p l) (hi : l[i]? = some a) : p a ↔ i < l.countP p := by
  induction l generalizing i with
  | nil => simp at hi
  | cons b l ih =>
    cases i with
    | zero =>
      obtain rfl : b = a := by simpa using hi
      by_cases hp : p b
      · simp [hp]
      · simp [hp, h.countP_tail hp]
    | succ i =>
      rw [List.getElem?_cons_succ] at hi
      by_cases hp : p b
      · simp [hp, ih h.of_cons hi]
      · simp [hp, h.countP_tail hp, h.tail_not hp a (List.mem_of_getElem? hi)]

end Cut

/-! ### Repeated halving -/

/-- The first of the halves is the largest one. -/
lemma div_two_pow_succ_le (n j : ℕ) : n / 2 ^ (j + 1) ≤ n / 2 := by
  rw [Nat.pow_succ', ← Nat.div_div_eq_div_mul]
  exact Nat.div_le_self _ _

lemma div_two_div_two_pow (n j : ℕ) : n / 2 / 2 ^ (j + 1) = n / 2 ^ (j + 1 + 1) := by
  rw [Nat.div_div_eq_div_mul, Nat.pow_succ' (n := j + 1)]

end ArchExplorer.Lib
