import Mathlib.Data.Nat.Digits.Defs
import Mathlib.Data.List.Basic
import Mathlib.Tactic.Common

/-!
# Numbered labels

Texts of the form `12-name` determine both of their parts.
-/

namespace ArchExplorer.Lib

lemma toList_toString (n : ℕ) : (toString n).toList = Nat.toDigits 10 n := by
  simp [Nat.toString_eq_repr, Nat.repr]

lemma dash_notMem_toString (n : ℕ) : '-' ∉ (toString n).toList := by
  rw [toList_toString]
  intro hmem
  exact absurd (Nat.isDigit_of_mem_toDigits (by decide) (by decide) hmem) (by decide)

/-- A number and a name without a dash can be read off their label. -/
lemma label_inj {m n : ℕ} {a b : String} (ha : '-' ∉ a.toList)
    (h : toString m ++ "-" ++ a = toString n ++ "-" ++ b) : m = n ∧ a = b := by
  have hlist := congrArg String.toList h
  have hdash : "-".toList = ['-'] := rfl
  simp only [String.toList_append, hdash, List.append_assoc, List.singleton_append] at hlist
  obtain ⟨hm, -, hab⟩ := (List.append_cons_inj_of_notMem (dash_notMem_toString m) ha).mp hlist
  rw [toList_toString, toList_toString] at hm
  refine ⟨?_, String.toList_inj.mp hab⟩
  rw [← Nat.ofDigitChars_ten_toDigits (n := m), hm, Nat.ofDigitChars_ten_toDigits]

end ArchExplorer.Lib
