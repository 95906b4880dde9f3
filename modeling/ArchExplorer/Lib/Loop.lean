import ArchExplorer.Lib.Exec

/-!
# Loops that may be left early

The body of a loop is given the number of the iteration and the state. It stops with an error,
leaves the loop with a result, or goes on to the next iteration.
-/

namespace ArchExplorer.Lib

/-- How an iteration ends. -/
inductive Flow (ρ σ : Type) where
  | leave (r : ρ)
  | next (s : σ)
  deriving DecidableEq, Repr

namespace Loop

variable {ε ρ σ : Type}

/-- The `n` iterations from `i` on. A loop that is not left ends with the result `finish`. -/
def run (body : ℕ → σ → Except ε (Flow ρ σ)) (finish : σ → ρ) : ℕ → ℕ → σ → Except ε ρ
  | 0,     _, s => .ok (finish s)
  | n + 1, i, s => do
    match ← body i s with
    | .leave r => return r
    | .next s' => run body finish n (i + 1) s'

/-- Iteration `i` begins in the state `s`. -/
inductive Visits (body : ℕ → σ → Except ε (Flow ρ σ)) (s₀ : σ) : ℕ → σ → Prop
  | start : Visits body s₀ 0 s₀
  | next {i : ℕ} {s s' : σ} : Visits body s₀ i s → body i s = .ok (.next s') →
      Visits body s₀ (i + 1) s'

variable {body : ℕ → σ → Except ε (Flow ρ σ)} {finish : σ → ρ} {s₀ s s' : σ} {i n : ℕ}

/-- The invariant rule. -/
lemma Visits.invariant {I : ℕ → σ → Prop} (h : Visits body s₀ i s) (hinit : I 0 s₀)
    (hstep : ∀ i s s', Visits body s₀ i s → I i s → body i s = .ok (.next s') → I (i + 1) s') :
    I i s := by
  induction h with
  | start => exact hinit
  | next hv hs ih => exact hstep _ _ _ hv ih hs

lemma Visits.unique (h : Visits body s₀ i s) (h' : Visits body s₀ i s') : s = s' := by
  induction h generalizing s' with
  | start =>
    cases h'
    rfl
  | next _ hs ih =>
    cases h' with
    | next hv hs' =>
      obtain rfl := ih hv
      exact Flow.next.inj (Except.ok.inj (hs.symm.trans hs'))

/-- All iterations before one that begins have begun. -/
lemma Visits.before (h : Visits body s₀ i s) {j : ℕ} (hj : j ≤ i) :
    ∃ s', Visits body s₀ j s' := by
  induction h with
  | start =>
    obtain rfl := Nat.le_zero.mp hj
    exact ⟨_, .start⟩
  | @next i s s' hv hs ih =>
    rcases Nat.lt_or_eq_of_le hj with hlt | rfl
    · exact ih (Nat.lt_succ_iff.mp hlt)
    · exact ⟨s', hv.next hs⟩

/-- A loop goes on as from the iteration that it has reached. -/
lemma run_of_visits (h : Visits body s₀ i s) (n : ℕ) :
    run body finish (i + n) 0 s₀ = run body finish n i s := by
  induction h generalizing n with
  | start => rw [Nat.zero_add]
  | @next i s s' _ hs ih => rw [Nat.add_right_comm, Nat.add_assoc, ih, run, hs, ok_bind]

lemma run_error {e : ε} (h : Visits body s₀ i s) (hi : i < n) (hbody : body i s = .error e) :
    run body finish n 0 s₀ = .error e := by
  obtain ⟨k, rfl⟩ : ∃ k, n = i + (k + 1) := ⟨n - i - 1, by omega⟩
  rw [run_of_visits h, run, hbody, error_bind]

lemma run_leave {r : ρ} (h : Visits body s₀ i s) (hi : i < n) (hbody : body i s = .ok (.leave r)) :
    run body finish n 0 s₀ = .ok r := by
  obtain ⟨k, rfl⟩ : ∃ k, n = i + (k + 1) := ⟨n - i - 1, by omega⟩
  rw [run_of_visits h, run, hbody, ok_bind]
  rfl

lemma run_finish (h : Visits body s₀ n s) : run body finish n 0 s₀ = .ok (finish s) := by
  have hrun : run body finish (n + 0) 0 s₀ = run body finish 0 n s := run_of_visits h 0
  rwa [Nat.add_zero] at hrun

/-- A loop whose iterations all return is left in one of them or goes through all of them. -/
lemma visits_or_leave (n : ℕ)
    (hbody : ∀ i < n, ∀ s, Visits body s₀ i s → ∃ f, body i s = .ok f) :
    (∃ s, Visits body s₀ n s) ∨
      ∃ i s r, i < n ∧ Visits body s₀ i s ∧ body i s = .ok (.leave r) := by
  induction n with
  | zero => exact .inl ⟨s₀, .start⟩
  | succ n ih =>
    rcases ih fun i hi => hbody i (Nat.lt_succ_of_lt hi) with ⟨s, hs⟩ | ⟨i, s, r, hi, hleave⟩
    · obtain ⟨f, hf⟩ := hbody n n.lt_succ_self s hs
      cases f with
      | leave r => exact .inr ⟨n, s, r, n.lt_succ_self, hs, hf⟩
      | next s' => exact .inl ⟨s', hs.next hf⟩
    · exact .inr ⟨i, s, r, Nat.lt_succ_of_lt hi, hleave⟩

/-- The iterations of a loop that returns have returned. -/
lemma body_of_run_eq_ok {r : ρ} (h : run body finish n 0 s₀ = .ok r) (hs : Visits body s₀ i s)
    (hi : i < n) : ∃ f, body i s = .ok f := by
  cases hf : body i s with
  | error e => cases h.symm.trans (run_error hs hi hf)
  | ok f => exact ⟨f, rfl⟩

/-- A loop that returns went through all of its iterations or was left in one of them. -/
lemma of_run_eq_ok {r : ρ} (h : run body finish n 0 s₀ = .ok r) :
    (∃ s, Visits body s₀ n s ∧ r = finish s) ∨
      ∃ i s, i < n ∧ Visits body s₀ i s ∧ body i s = .ok (.leave r) := by
  rcases visits_or_leave n fun i hi s hs => body_of_run_eq_ok h hs hi with
    ⟨s, hs⟩ | ⟨i, s, r', hi, hs, hleave⟩
  · exact .inl ⟨s, hs, Except.ok.inj (h.symm.trans (run_finish hs))⟩
  · cases h.symm.trans (run_leave hs hi hleave)
    exact .inr ⟨i, s, hi, hs, hleave⟩

end Loop

end ArchExplorer.Lib
