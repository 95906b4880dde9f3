import Mathlib.Data.List.Chain
import Mathlib.Tactic

/-!
# Walks

A walk is a list whose consecutive elements are related. `nextIn` reads the successor of an element
off a list, and `walkSum` adds up the weights of the steps of a walk.
-/

namespace ArchExplorer.Lib

variable {V : Type}

section Next

variable [DecidableEq V]

/-- The element after the first occurrence of `u`. -/
def nextIn : List V → V → Option V
  | a :: b :: l, u => if a = u then some b else nextIn (b :: l) u
  | _,           _ => none

lemma nextIn_cons_cons (a b : V) (l : List V) (u : V) :
    nextIn (a :: b :: l) u = if a = u then some b else nextIn (b :: l) u := rfl

/-- Consecutive elements of a walk are related. -/
lemma rel_of_nextIn {R : V → V → Prop} {l : List V} (hl : l.IsChain R) {u v : V}
    (h : nextIn l u = some v) : R u v := by
  match l with
  | []          => simp [nextIn] at h
  | [_]         => simp [nextIn] at h
  | a :: b :: l =>
    rw [List.isChain_cons_cons] at hl
    rw [nextIn_cons_cons] at h
    split_ifs at h with hau
    · obtain rfl : b = v := by simpa using h
      exact hau ▸ hl.1
    · exact rel_of_nextIn hl.2 h

lemma mem_of_nextIn {l : List V} {u v : V} (h : nextIn l u = some v) : u ∈ l ∧ v ∈ l.tail := by
  match l with
  | []          => simp [nextIn] at h
  | [_]         => simp [nextIn] at h
  | a :: b :: l =>
    rw [nextIn_cons_cons] at h
    split_ifs at h with hau
    · obtain rfl : b = v := by simpa using h
      simp [hau]
    · obtain ⟨hu, hv⟩ := mem_of_nextIn h
      exact ⟨List.mem_cons_of_mem _ hu, List.mem_cons_of_mem _ hv⟩

/-- Every element but the last one has a successor. -/
lemma exists_nextIn {l : List V} {u x : V} (h : u ∈ l) (hu : u ≠ x) :
    ∃ v, nextIn (l ++ [x]) u = some v := by
  match l with
  | []          => simp at h
  | [a]         =>
    obtain rfl : u = a := by simpa using h
    exact ⟨x, by simp [nextIn]⟩
  | a :: b :: l =>
    rw [List.cons_append, List.cons_append, nextIn_cons_cons]
    split_ifs with hau
    · exact ⟨b, rfl⟩
    · rcases List.mem_cons.mp h with rfl | h
      · exact absurd rfl hau
      · exact exists_nextIn h hu

/-- The successor of the first occurrence of an element. -/
lemma nextIn_append {l : List V} {u : V} (h : u ∉ l) (r : List V) :
    nextIn (l ++ u :: r) u = r.head? := by
  match l with
  | []          => cases r <;> simp [nextIn]
  | [a]         =>
    have ha : a ≠ u := fun hau => h (by simp [hau])
    rw [List.singleton_append, nextIn_cons_cons, if_neg ha]
    cases r <;> simp [nextIn]
  | a :: b :: l =>
    have ha : a ≠ u := fun hau => h (by simp [hau])
    rw [List.cons_append, List.cons_append, nextIn_cons_cons, if_neg ha]
    exact nextIn_append (fun hu => h (List.mem_cons_of_mem _ hu)) r

lemma nextIn_eq_none {l : List V} {u : V} (h : u ∉ l) : nextIn l u = none := by
  cases hn : nextIn l u with
  | none   => rfl
  | some v => exact absurd (mem_of_nextIn hn).1 h

end Next

section Sum

/-- The sum of the weights of the steps. -/
def walkSum (weight : V → V → ℤ) : List V → ℤ
  | u :: v :: l => weight u v + walkSum weight (v :: l)
  | _           => 0

lemma walkSum_cons_cons (weight : V → V → ℤ) (u v : V) (l : List V) :
    walkSum weight (u :: v :: l) = weight u v + walkSum weight (v :: l) := rfl

/-- Weights that are differences of a potential add up to the difference between the ends. -/
lemma walkSum_telescope {weight : V → V → ℤ} {t : V → ℤ} {u v : V} {l : List V}
    (hl : (u :: l).IsChain fun a b => weight a b = t b - t a)
    (hlast : (u :: l).getLast? = some v) : walkSum weight (u :: l) = t v - t u := by
  induction l generalizing u with
  | nil =>
    obtain rfl : u = v := by simpa using hlast
    simp [walkSum]
  | cons w l ih =>
    rw [List.isChain_cons_cons] at hl
    rw [List.getLast?_cons_cons] at hlast
    rw [walkSum_cons_cons, hl.1, ih hl.2 hlast]
    ring

/-- A potential that no step decreases is not decreased by the walk. -/
lemma le_of_isChain {A : Type} [Preorder A] {t : V → A} {u v : V} {l : List V}
    (hl : (u :: l).IsChain fun a b => t a ≤ t b) (hlast : (u :: l).getLast? = some v) :
    t u ≤ t v := by
  induction l generalizing u with
  | nil =>
    obtain rfl : u = v := by simpa using hlast
    exact le_refl _
  | cons w l ih =>
    rw [List.isChain_cons_cons] at hl
    rw [List.getLast?_cons_cons] at hlast
    exact le_trans hl.1 (ih hl.2 hlast)

end Sum

end ArchExplorer.Lib
