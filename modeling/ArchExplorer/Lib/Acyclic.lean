import Mathlib.Data.Finset.Card
import Mathlib.Logic.Relation

/-!
# Finite acyclic relations

Where the successors of all elements are in a finite set and no element is reached from itself, a
step reaches fewer elements than there were before it. This bounds the depth of a search.
-/

namespace ArchExplorer.Lib

open Relation

variable {α : Type*} {r : α → α → Prop} {t : Finset α} {a b : α}

/-- No element is reached from itself. -/
def Acyclic (r : α → α → Prop) : Prop := ∀ a, ¬TransGen r a a

open Classical in
/-- The number of elements of `t` that are reached from `a`. -/
noncomputable def reach (r : α → α → Prop) (t : Finset α) (a : α) : ℕ :=
  (t.filter (TransGen r a)).card

lemma reach_le : reach r t a ≤ t.card := by
  classical
  exact Finset.card_filter_le _ _

/-- A step reaches fewer elements. -/
lemma Acyclic.reach_lt (h : Acyclic r) (hb : b ∈ t) (hab : r a b) : reach r t b < reach r t a := by
  classical
  refine Finset.card_lt_card (Finset.ssubset_iff_subset_ne.mpr ⟨?_, fun heq => ?_⟩)
  · intro c hc
    rw [Finset.mem_filter] at hc ⊢
    exact ⟨hc.1, hc.2.head hab⟩
  · -- `b` itself is no longer reached
    have hmem : b ∈ t.filter (TransGen r a) := Finset.mem_filter.mpr ⟨hb, .single hab⟩
    rw [← heq, Finset.mem_filter] at hmem
    exact h b hmem.2

end ArchExplorer.Lib
