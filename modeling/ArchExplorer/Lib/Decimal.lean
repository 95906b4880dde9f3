import Mathlib.Algebra.Order.Field.Rat
import Mathlib.Algebra.Order.Field.Power
import Mathlib.Tactic.Linarith
import ArchExplorer.Lib.Text

/-!
# Decimal fractions with an exponent

A literal is a sign, a mantissa with at most one decimal point, and an exponent. Its value is the
mantissa, scaled and negated.
-/

namespace ArchExplorer.Lib.Text

variable {s : Text}

/-- The beginning of an exponent. -/
def isExponent (c : Char) : Bool := c == 'e' || c == 'E'

/-- The value of digits with at most one point. -/
def ofPoint (s : Text) : ℚ :=
  let frac := (s.dropWhile Char.isDigit).tail
  (ofDigits (s.takeWhile Char.isDigit ++ frac) : ℚ) / 10 ^ frac.length

/-- Is there a minus sign? -/
def negative (s : Text) : Bool := (signed s).1

/-- The value of the mantissa. -/
def mantissa (s : Text) : ℚ := ofPoint ((signed s).2.takeWhile fun c => !isExponent c)

/-- The value of the exponent, which is 0 if there is none. -/
def exponent (s : Text) : ℤ :=
  match signed (s.dropWhile fun c => !isExponent c).tail with
  | (neg, digits) => ofSigned neg digits

/-- The value of a literal. -/
def decimal (s : Text) : ℚ := (if negative s then -1 else 1) * mantissa s * 10 ^ exponent s

/-- The mantissa is the value: there is neither a minus sign nor an exponent that counts. -/
def Plain (s : Text) : Prop := negative s = false ∧ exponent s = 0 ∨ mantissa s = 0

instance : Decidable (Plain s) := inferInstanceAs (Decidable (_ ∧ _ ∨ _))

/-- What is lost when only the mantissa is read. -/
def lost (s : Text) : ℚ := decimal s - mantissa s

lemma lost_eq_zero_iff : lost s = 0 ↔ Plain s := by
  rw [lost, sub_eq_zero, decimal, Plain]
  by_cases hm : mantissa s = 0
  · simp [hm]
  · have hpos : (0 : ℚ) < 10 ^ exponent s := by positivity
    cases hneg : negative s with
    | true =>
      -- a negative factor is not 1
      have hne : -mantissa s * 10 ^ exponent s ≠ mantissa s := by
        intro h
        have hfactor : mantissa s * (10 ^ exponent s + 1) = 0 := by linarith
        rcases mul_eq_zero.mp hfactor with h | h
        · exact hm h
        · linarith
      simpa [hm] using hne
    | false =>
      have hone : mantissa s * 10 ^ exponent s = mantissa s ↔ (10 : ℚ) ^ exponent s = 1 := by
        rw [mul_eq_left₀ hm]
      simpa [hm, hone] using zpow_eq_one_iff_right₀ (by norm_num : (0 : ℚ) ≤ 10) (by norm_num)

end ArchExplorer.Lib.Text
