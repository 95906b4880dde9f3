import Mathlib.Tactic.Common

/-!
# Runs of a state machine

A machine takes commands one after the other. A run is a sequence of commands each of which is
accepted in the state in which it is given.
-/

namespace ArchExplorer.Lib

variable {σ α : Type}

/-- The states that are reached from `s₀` by commands that satisfy `C` in the state in which they
are given. -/
inductive Reaches (step : σ → α → Option σ) (C : σ → α → Prop) (s₀ : σ) : σ → Prop
  | refl : Reaches step C s₀ s₀
  | step {s s' : σ} {a : α} : Reaches step C s₀ s → C s a → step s a = some s' →
      Reaches step C s₀ s'

variable {step : σ → α → Option σ} {C : σ → α → Prop} {s₀ s : σ}

/-- The invariant rule. -/
lemma Reaches.invariant {I : σ → Prop} (h : Reaches step C s₀ s) (hinit : I s₀)
    (hstep : ∀ s a s', I s → C s a → step s a = some s' → I s') : I s := by
  induction h with
  | refl => exact hinit
  | step _ hC hs ih => exact hstep _ _ _ ih hC hs

/-- Carry out a list of commands, each of which has to satisfy `C`. -/
def runCommands (step : σ → α → Option σ) (C : σ → α → Prop) [∀ s a, Decidable (C s a)] :
    σ → List α → Option σ
  | s, []      => some s
  | s, a :: as => if C s a then step s a >>= fun s' => runCommands step C s' as else none

lemma Reaches.runCommands [∀ s a, Decidable (C s a)] {as : List α} {s' : σ}
    (hs : Reaches step C s₀ s) (h : runCommands step C s as = some s') :
    Reaches step C s₀ s' := by
  induction as generalizing s with
  | nil =>
    obtain rfl : s = s' := Option.some.inj h
    exact hs
  | cons a as ih =>
    rw [Lib.runCommands] at h
    split_ifs at h with hC
    obtain ⟨s₁, hs₁, hrest⟩ := Option.bind_eq_some_iff.mp h
    exact ih (.step hs hC hs₁) hrest

end ArchExplorer.Lib
