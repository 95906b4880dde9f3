import Mathlib.Algebra.Order.Round
import Mathlib.Data.Int.Log
import Mathlib.Data.Rat.Floor
import Mathlib.Tactic.FieldSimp
import Mathlib.Tactic.Linarith
import Mathlib.Tactic.NormNum

/-!
# Rounding to doubles

Rounding a rational to the nearest integer and to the nearest double, ties to even. Only the
precision of 53 bits is modelled: overflow and subnormal numbers are left to the user of the
module.
-/

namespace ArchExplorer.Lib

/-- The integer nearest to `q`, the even one of two. -/
def roundEven (q : ℚ) : ℤ :=
  if Int.fract q < 1 / 2 then ⌊q⌋
  else if 1 / 2 < Int.fract q then ⌊q⌋ + 1
  else if Even ⌊q⌋ then ⌊q⌋ else ⌊q⌋ + 1

/-- The distance of the doubles around `q`. -/
def ulp (q : ℚ) : ℚ := 2 ^ (Int.log 2 |q| - 52)

/-- The double nearest to `q`. -/
def toDouble (q : ℚ) : ℚ := roundEven (q / ulp q) * ulp q

variable {q : ℚ} {k : ℤ}

lemma roundEven_of_abs_lt (h : |q - k| < 1 / 2) : roundEven q = k := by
  rw [abs_lt] at h
  have hfract : (⌊q⌋ : ℚ) + Int.fract q = q := Int.floor_add_fract q
  have hnonneg := Int.fract_nonneg q
  have hlt := Int.fract_lt_one q
  unfold roundEven
  split_ifs with h₁ h₂ h₃
  · have hle : (⌊q⌋ : ℚ) < k + 1 := by linarith
    have hge : (k : ℚ) < ⌊q⌋ + 1 := by linarith
    norm_cast at hle hge
    omega
  · have hle : (⌊q⌋ : ℚ) < k := by linarith
    have hge : (k : ℚ) < ⌊q⌋ + 2 := by linarith
    norm_cast at hle hge
    omega
  all_goals
    have hhalf : Int.fract q = 1 / 2 := le_antisymm (not_lt.mp h₂) (not_lt.mp h₁)
    have hle : (⌊q⌋ : ℚ) < k := by linarith
    have hge : (k : ℚ) < ⌊q⌋ + 1 := by linarith
    norm_cast at hle hge
    omega

@[simp] lemma roundEven_intCast (k : ℤ) : roundEven k = k := roundEven_of_abs_lt (by simp)

/-- Half way between two integers. -/
lemma roundEven_add_half (k : ℤ) : roundEven (k + 1 / 2) = if Even k then k else k + 1 := by
  have hfloor : ⌊(k : ℚ) + 1 / 2⌋ = k := by
    rw [Int.floor_intCast_add]
    norm_num
  have hfract : Int.fract ((k : ℚ) + 1 / 2) = 1 / 2 := by
    rw [Int.fract, hfloor]
    ring
  rw [roundEven, hfract, hfloor, if_neg (lt_irrefl _), if_neg (lt_irrefl _)]

lemma abs_sub_roundEven_le (q : ℚ) : |q - roundEven q| ≤ 1 / 2 := by
  have hfract : (⌊q⌋ : ℚ) + Int.fract q = q := Int.floor_add_fract q
  have hnonneg := Int.fract_nonneg q
  have hlt := Int.fract_lt_one q
  unfold roundEven
  rw [abs_le]
  split_ifs <;> push_cast <;> constructor <;> linarith

/-- An integer is the nearest one if it is nearer than any other, or even and as near. -/
lemma roundEven_eq_iff : roundEven q = k ↔ |q - k| < 1 / 2 ∨ |q - k| = 1 / 2 ∧ Even k := by
  constructor
  · rintro rfl
    rcases (abs_sub_roundEven_le q).lt_or_eq with hlt | heq
    · exact .inl hlt
    · -- half way: `q` is an integer and a half, and rounding has chosen the even neighbour
      refine .inr ⟨heq, ?_⟩
      rcases (abs_eq (by norm_num)).mp heq with h | h
      · have hq : q = (roundEven q : ℤ) + 1 / 2 := by linarith
        have hround := congrArg roundEven hq
        rw [roundEven_add_half] at hround
        split_ifs at hround with heven
        · exact heven
        · omega
      · have hq : q = ((roundEven q - 1 : ℤ) : ℚ) + 1 / 2 := by
          push_cast
          linarith
        have hround := congrArg roundEven hq
        rw [roundEven_add_half] at hround
        split_ifs at hround with heven
        · omega
        · rw [Int.not_even_iff_odd] at heven
          simpa using heven.add_one
  · rintro (h | ⟨h, heven⟩)
    · exact roundEven_of_abs_lt h
    · rcases (abs_eq (by norm_num)).mp h with h | h
      · rw [show q = (k : ℚ) + 1 / 2 by linarith, roundEven_add_half, if_pos heven]
      · have hq : q = ((k - 1 : ℤ) : ℚ) + 1 / 2 := by
          push_cast
          linarith
        have hodd : ¬Even (k - 1) := by
          rw [Int.not_even_iff_odd]
          exact heven.sub_odd odd_one
        rw [hq, roundEven_add_half, if_neg hodd]
        omega

lemma ulp_pos (q : ℚ) : 0 < ulp q := zpow_pos (by norm_num) _

/-- The nearest double is at most half the distance of two doubles away. -/
lemma abs_sub_toDouble_le (q : ℚ) : |q - toDouble q| ≤ ulp q / 2 := by
  have hpos := ulp_pos q
  have hq : q - toDouble q = (q / ulp q - roundEven (q / ulp q)) * ulp q := by
    rw [toDouble, sub_mul, div_mul_cancel₀ q hpos.ne']
  rw [hq, abs_mul, abs_of_pos hpos]
  calc |q / ulp q - roundEven (q / ulp q)| * ulp q
      ≤ 1 / 2 * ulp q := mul_le_mul_of_nonneg_right (abs_sub_roundEven_le _) hpos.le
    _ = ulp q / 2 := by ring

/-- The exponent of a number below `2 ^ n`. -/
lemma log_abs_lt {n : ℕ} (hq : |q| < 2 ^ n) (hn : 1 ≤ n) : Int.log 2 |q| < n := by
  rcases eq_or_ne q 0 with rfl | hne
  · rw [abs_zero, Int.log_zero_right]
    omega
  · rw [← Int.lt_zpow_iff_log_lt (by norm_num) (abs_pos.mpr hne)]
    exact_mod_cast hq

lemma ulp_le {n : ℕ} (hq : |q| < 2 ^ n) (hn : 1 ≤ n) : ulp q ≤ 2 ^ ((n : ℤ) - 53) := by
  have hlog := log_abs_lt hq hn
  exact zpow_le_zpow_right₀ (by norm_num) (by omega)

/-- A multiple of the distance of two doubles is a double. -/
lemma toDouble_eq_self {m : ℤ} (h : q = m * ulp q) : toDouble q = q := by
  have hdiv : q / ulp q = m := by
    rw [div_eq_iff (ulp_pos q).ne']
    exact h
  rw [toDouble, hdiv, roundEven_intCast]
  exact h.symm

/-- A number with few bits on both sides of the point is a double. -/
lemma toDouble_eq_self_of_lt {m : ℤ} {j n : ℕ} (hq : q = m / 2 ^ j) (hlt : |q| < 2 ^ n)
    (hn : 1 ≤ n) (hbits : n + j ≤ 53) : toDouble q = q := by
  have hlog := log_abs_lt hlt hn
  obtain ⟨i, hi⟩ : ∃ i : ℕ, 52 - Int.log 2 |q| - j = i := Int.eq_ofNat_of_zero_le (by omega)
  have hulp : ulp q = 1 / (2 ^ i * 2 ^ j) := by
    rw [ulp, show Int.log 2 |q| - 52 = -((i + j : ℕ) : ℤ) by push_cast; omega, zpow_neg,
      zpow_natCast, pow_add, one_div]
  have hmul : q = ((m * 2 ^ i : ℤ) : ℚ) * ulp q := by
    rw [hulp, hq]
    push_cast
    field_simp
  exact toDouble_eq_self hmul

/-- The distance of two doubles is small against the number between them. -/
lemma ulp_le_abs (hq : q ≠ 0) : ulp q ≤ |q| / 2 ^ 52 := by
  have hle : (2 : ℚ) ^ Int.log 2 |q| ≤ |q| := by
    exact_mod_cast Int.zpow_log_le_self (b := 2) (by norm_num) (abs_pos.mpr hq)
  have hulp : ulp q = 2 ^ Int.log 2 |q| / 2 ^ 52 := by
    rw [ulp, zpow_sub₀ (by norm_num)]
    norm_cast
  rw [hulp]
  gcongr

@[simp] lemma toDouble_zero : toDouble 0 = 0 := by
  have h : roundEven 0 = 0 := by exact_mod_cast roundEven_intCast 0
  rw [toDouble, zero_div, h, Int.cast_zero, zero_mul]

/-- The nearest double is near in relation to the number. -/
lemma abs_sub_toDouble_le_abs (q : ℚ) : |q - toDouble q| ≤ |q| / 2 ^ 53 := by
  rcases eq_or_ne q 0 with rfl | hq
  · simp
  · calc |q - toDouble q| ≤ ulp q / 2 := abs_sub_toDouble_le q
      _ ≤ |q| / 2 ^ 52 / 2 := by gcongr; exact ulp_le_abs hq
      _ = |q| / 2 ^ 53 := by ring

/-- An integer is rounded to an integer. -/
lemma exists_toDouble_intCast (k : ℤ) : ∃ m : ℤ, toDouble k = m := by
  rcases lt_or_ge |(k : ℚ)| (2 ^ 53) with hlt | hge
  · refine ⟨k, toDouble_eq_self_of_lt (m := k) (j := 0) (n := 53) ?_ hlt (by norm_num)
      (by norm_num)⟩
    rw [pow_zero, div_one]
  · -- doubles from here on are a power of two apart that is an integer
    have hlog : 53 ≤ Int.log 2 |(k : ℚ)| := by
      have hpos : (0 : ℚ) < |(k : ℚ)| := lt_of_lt_of_le (by norm_num) hge
      rw [← Int.zpow_le_iff_le_log (by norm_num) hpos]
      exact_mod_cast hge
    obtain ⟨n, hn⟩ : ∃ n : ℕ, Int.log 2 |(k : ℚ)| - 52 = n := Int.eq_ofNat_of_zero_le (by omega)
    refine ⟨roundEven (k / ulp k) * 2 ^ n, ?_⟩
    rw [toDouble, ulp, hn, zpow_natCast]
    push_cast
    ring

/-- An integer that is recovered from its double is a double. -/
lemma toDouble_intCast_iff (k : ℤ) : roundEven (toDouble k) = k ↔ toDouble k = k := by
  obtain ⟨m, hm⟩ := exists_toDouble_intCast k
  rw [hm, roundEven_intCast]
  norm_cast

end ArchExplorer.Lib
