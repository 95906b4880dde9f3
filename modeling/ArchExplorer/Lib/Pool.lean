import Mathlib.Data.List.Perm.Basic
import Mathlib.Data.List.Nodup
import Mathlib.Data.Multiset.Basic
import Mathlib.Tactic

/-!
# Pools of indices

The indices of a pool are free or held. Taking an index and giving it back moves it from one side to
the other.
-/

namespace ArchExplorer.Lib.Pool

variable {α ι : Type}

/-- All indices: those of the holders and the free ones. -/
def indices (key : α → ι) (held : List α) (free : List ι) : Multiset ι :=
  ↑(held.map key) + ↑free

variable {key : α → ι} {held pre post : List α} {free : List ι} {a : α}

/-- A new holder takes an index. -/
lemma indices_take : indices key (held ++ [a]) free = indices key held (key a :: free) := by
  rw [indices, indices, List.map_append, ← Multiset.coe_add, add_assoc]
  rfl

/-- Some holders give their indices back. -/
lemma indices_give {removed : List α} (h : held.Perm (pre ++ removed)) :
    indices key pre (free ++ removed.map key) = indices key held free := by
  have hmap : (↑(held.map key) : Multiset ι) = ↑(pre.map key) + ↑(removed.map key) := by
    rw [Multiset.coe_add, ← List.map_append]
    exact Multiset.coe_eq_coe.mpr (h.map key)
  rw [indices, indices, hmap, ← Multiset.coe_add, add_assoc, add_comm (↑free : Multiset ι)]

/-- What follows when every number below `n` is an index once: the holders have distinct indices and
the other ones are free. -/
lemma of_indices_eq_range {key : α → ℕ} {free : List ℕ} {n : ℕ}
    (h : indices key held free = ↑(List.range n)) :
    (held.map key).Nodup ∧ (∀ i ∈ held.map key, i < n) ∧
      free.Perm ((List.range n).filter fun i => i ∉ held.map key) := by
  have hperm : (held.map key ++ free).Perm (List.range n) := by
    rw [← Multiset.coe_eq_coe, ← Multiset.coe_add]
    exact h
  have hnodup : (held.map key ++ free).Nodup := hperm.nodup_iff.mpr List.nodup_range
  obtain ⟨hheld, hfree, hdisj⟩ := List.nodup_append.mp hnodup
  refine ⟨hheld, fun i hi => ?_, ?_⟩
  · exact List.mem_range.mp (hperm.subset (List.mem_append_left _ hi))
  · have hfilter := hperm.filter fun i => decide (i ∉ held.map key)
    rw [List.filter_append] at hfilter
    have hnone : (held.map key).filter (fun i => decide (i ∉ held.map key)) = [] := by
      rw [List.filter_eq_nil_iff]
      intro i hi
      simpa using hi
    have hall : free.filter (fun i => decide (i ∉ held.map key)) = free := by
      rw [List.filter_eq_self]
      intro i hi
      exact decide_eq_true fun hmem => hdisj i hmem i hi rfl
    rwa [hnone, hall, List.nil_append] at hfilter

end ArchExplorer.Lib.Pool
