import Mathlib.Data.List.Chain
import Mathlib.Data.List.Nodup
import Mathlib.Data.List.Range
import Mathlib.Tactic

/-!
# Consecutive slots of a ring

The slots of a ring of size `n` are the numbers below `n`, and a window is a run of neighbouring
slots.
-/

namespace ArchExplorer.Lib.Ring

/-- The `k` slots that start at the slot of `base`. -/
def window (n base k : ℕ) : List ℕ := (List.range k).map fun j => (base + j) % n

variable {n base k : ℕ}

@[simp] lemma window_zero : window n base 0 = [] := rfl

@[simp] lemma length_window : (window n base k).length = k := by simp [window]

/-- The last slot of a window. -/
lemma window_succ : window n base (k + 1) = window n base k ++ [(base + k) % n] := by
  rw [window, List.range_succ, List.map_append]
  rfl

/-- The first slot of a window. -/
lemma window_succ_eq_cons : window n base (k + 1) = base % n :: window n (base + 1) k := by
  rw [window, List.range_succ_eq_map, List.map_cons, List.map_map]
  refine congrArg₂ List.cons rfl (List.map_congr_left fun j _ => ?_)
  rw [Function.comp_apply, Nat.succ_eq_add_one, ← add_assoc, add_right_comm]

/-- A window that is no longer than the ring has no slot twice. -/
lemma nodup_window (h : k ≤ n) : (window n base k).Nodup := by
  refine List.Nodup.map_on (fun i hi j hj heq => ?_) List.nodup_range
  rw [List.mem_range] at hi hj
  have hmod : i ≡ j [MOD n] := Nat.ModEq.add_left_cancel' base heq
  exact hmod.eq_of_lt_of_lt (hi.trans_le h) (hj.trans_le h)

/-- Each slot is followed by its neighbour. -/
lemma isChain_window : (window n base k).IsChain fun a b => b = (a + 1) % n := by
  induction k generalizing base with
  | zero => exact .nil
  | succ k ih =>
    cases k with
    | zero => simp [window]
    | succ k =>
      rw [window_succ_eq_cons, window_succ_eq_cons, List.isChain_cons_cons, ← window_succ_eq_cons]
      exact ⟨by rw [Nat.mod_add_mod], ih⟩

end ArchExplorer.Lib.Ring
