import Mathlib.Logic.Relation
import Mathlib.Tactic.Common

/-!
# Stateful computations that may stop early

A computation of `Exec ε σ α` reads and writes a state of type `σ` and either returns a value or
stops with an error. The state that was reached is kept in both cases, so that one can speak about
what a run has written before it was aborted.
-/

namespace ArchExplorer.Lib

variable {ε σ α β : Type}

/-- A computation over the state `σ` that may stop with an error of type `ε`. -/
structure Exec (ε σ α : Type) where
  run : σ → Except ε α × σ

lemma ok_bind (a : α) (f : α → Except ε β) : (Except.ok a >>= f) = f a := rfl

lemma error_bind (e : ε) (f : α → Except ε β) : (Except.error e >>= f) = .error e := rfl

lemma bind_eq_ok {x : Except ε α} {f : α → Except ε β} {b : β} (h : (x >>= f) = .ok b) :
    ∃ a, x = .ok a ∧ f a = .ok b := by
  cases x with
  | error e => cases h
  | ok a => exact ⟨a, rfl, h⟩

/-- A list of computations that all return has returned from each of them. -/
lemma forall₂_of_mapM_eq_ok {f : α → Except ε β} {l : List α} {r : List β}
    (h : l.mapM f = .ok r) : List.Forall₂ (fun a b => f a = .ok b) l r := by
  induction l generalizing r with
  | nil =>
    cases h
    exact .nil
  | cons a l ih =>
    rw [List.mapM_cons] at h
    obtain ⟨b, hb, h⟩ := bind_eq_ok h
    obtain ⟨bs, hbs, h⟩ := bind_eq_ok h
    cases h
    exact .cons hb (ih hbs)

lemma mapM_eq_ok {f : α → Except ε β} {l : List α} {r : List β}
    (h : List.Forall₂ (fun a b => f a = .ok b) l r) : l.mapM f = .ok r := by
  induction h with
  | nil => rfl
  | cons ha _ ih =>
    rw [List.mapM_cons, ha, ih]
    rfl

/-- Computations that are listed by number. -/
lemma mapM_range' {f : ℕ → Except ε β} {g : α → Except ε β} (l : List α) (s : ℕ)
    (h : ∀ i a, l[i]? = some a → f (s + i) = g a) :
    (List.range' s l.length).mapM f = l.mapM g := by
  induction l generalizing s with
  | nil => rfl
  | cons a l ih =>
    have htail : (List.range' (s + 1) l.length).mapM f = l.mapM g := by
      apply ih
      intro i b hb
      rw [Nat.add_assoc, Nat.add_comm 1 i]
      exact h (i + 1) b hb
    rw [List.length_cons, List.range'_succ, List.mapM_cons, List.mapM_cons, htail, ← h 0 a rfl]
    rfl

namespace Exec

instance : Monad (Exec ε σ) where
  pure a   := ⟨fun s => (.ok a, s)⟩
  bind x f := ⟨fun s =>
    match x.run s with
    | (.ok a, s')    => (f a).run s'
    | (.error e, s') => (.error e, s')⟩

lemma ext_run {x y : Exec ε σ α} (h : ∀ s, x.run s = y.run s) : x = y :=
  congrArg Exec.mk (funext h)

/-- The laws of monads. They are no instance, so that `simp` keeps the order of a computation. -/
lemma lawfulMonad : LawfulMonad (Exec ε σ) := by
  refine LawfulMonad.mk' _ (fun x => ext_run fun s => ?_) (fun _ _ => rfl)
    fun x f g => ext_run fun s => ?_
  · change (match x.run s with
      | (.ok a, s')    => (.ok a, s')
      | (.error e, s') => (.error e, s')) = x.run s
    rcases x.run s with ⟨_ | _, _⟩ <;> rfl
  · change (match (match x.run s with
        | (.ok a, s')    => (f a).run s'
        | (.error e, s') => (.error e, s')) with
      | (.ok b, s')    => (g b).run s'
      | (.error e, s') => (.error e, s')) = match x.run s with
        | (.ok a, s')    => (f a >>= g).run s'
        | (.error e, s') => (.error e, s')
    rcases x.run s with ⟨_ | _, _⟩ <;> rfl

/-- Stop with the error `e`. -/
def throw (e : ε) : Exec ε σ α := ⟨fun s => (.error e, s)⟩

/-- Read the state. -/
def get : Exec ε σ σ := ⟨fun s => (.ok s, s)⟩

/-- Update the state. -/
def modify (f : σ → σ) : Exec ε σ Unit := ⟨fun s => (.ok (), f s)⟩

/-- Run a state transformer that also returns a value. -/
def modifyGet (f : σ → α × σ) : Exec ε σ α := ⟨fun s => (.ok (f s).1, (f s).2)⟩

/-- A result that was computed without touching the state. -/
def ofExcept (r : Except ε α) : Exec ε σ α := ⟨fun s => (r, s)⟩

@[simp] lemma run_pure (a : α) (s : σ) : (pure a : Exec ε σ α).run s = (.ok a, s) := rfl

@[simp] lemma run_throw (e : ε) (s : σ) : (throw e : Exec ε σ α).run s = (.error e, s) := rfl

@[simp] lemma run_get (s : σ) : (get : Exec ε σ σ).run s = (.ok s, s) := rfl

@[simp] lemma run_modify (f : σ → σ) (s : σ) :
    (modify f : Exec ε σ Unit).run s = (.ok (), f s) := rfl

@[simp] lemma run_modifyGet (f : σ → α × σ) (s : σ) :
    (modifyGet f : Exec ε σ α).run s = (.ok (f s).1, (f s).2) := rfl

@[simp] lemma run_ofExcept (r : Except ε α) (s : σ) :
    (ofExcept r : Exec ε σ α).run s = (r, s) := rfl

lemma run_bind (x : Exec ε σ α) (f : α → Exec ε σ β) (s : σ) :
    (x >>= f).run s = match x.run s with
      | (.ok a, s')    => (f a).run s'
      | (.error e, s') => (.error e, s') := rfl

/-- The continuation runs from the state in which the first computation returned. -/
lemma run_bind_ok {x : Exec ε σ α} {s s' : σ} {a : α} (h : x.run s = (.ok a, s'))
    (f : α → Exec ε σ β) : (x >>= f).run s = (f a).run s' := by
  rw [run_bind, h]

/-- A computation that stops makes the rest of the program stop. -/
lemma run_bind_error {x : Exec ε σ α} {s s' : σ} {e : ε} (h : x.run s = (.error e, s'))
    (f : α → Exec ε σ β) : (x >>= f).run s = (.error e, s') := by
  rw [run_bind, h]

/-- A sequence that returns has returned from its first part. -/
lemma run_bind_eq_ok {x : Exec ε σ α} {f : α → Exec ε σ β} {s s₂ : σ} {b : β}
    (h : (x >>= f).run s = (.ok b, s₂)) :
    ∃ a s₁, x.run s = (.ok a, s₁) ∧ (f a).run s₁ = (.ok b, s₂) := by
  rw [run_bind] at h
  rcases hx : x.run s with ⟨e | a, s₁⟩
  · rw [hx] at h
    cases h
  · rw [hx] at h
    exact ⟨a, s₁, rfl, h⟩

/-- What the first part establishes of the state holds of the final state if the continuation
establishes it from there, whether the parts return or stop. -/
lemma run_bind_snd {x : Exec ε σ α} {f : α → Exec ε σ β} {s : σ} {P Q : σ → Prop}
    (hx : P (x.run s).2) (hstop : ∀ s', P s' → Q s') (hf : ∀ a s', P s' → Q ((f a).run s').2) :
    Q ((x >>= f).run s).2 := by
  rcases hrun : x.run s with ⟨e | a, s'⟩ <;> rw [hrun] at hx
  · rw [run_bind_error hrun]
    exact hstop s' hx
  · rw [run_bind_ok hrun]
    exact hf a s' hx

/-! ### Weakest preconditions -/

/-- Run from `s`, the computation `x` ends in `Q` when it returns and in `E` when it stops. -/
def wp (x : Exec ε σ α) (Q : α → σ → Prop) (E : ε → σ → Prop) (s : σ) : Prop :=
  match x.run s with
  | (.ok a, s')    => Q a s'
  | (.error e, s') => E e s'

variable {Q Q' : α → σ → Prop} {E E' : ε → σ → Prop} {s : σ}

@[simp] lemma wp_pure (a : α) : wp (pure a : Exec ε σ α) Q E s ↔ Q a s := Iff.rfl

@[simp] lemma wp_throw (e : ε) : wp (throw e : Exec ε σ α) Q E s ↔ E e s := Iff.rfl

@[simp] lemma wp_get {Q : σ → σ → Prop} : wp (get : Exec ε σ σ) Q E s ↔ Q s s := Iff.rfl

@[simp] lemma wp_modify {Q : Unit → σ → Prop} (f : σ → σ) :
    wp (modify f : Exec ε σ Unit) Q E s ↔ Q () (f s) := Iff.rfl

@[simp] lemma wp_modifyGet (f : σ → α × σ) :
    wp (modifyGet f : Exec ε σ α) Q E s ↔ Q (f s).1 (f s).2 := Iff.rfl

@[simp] lemma wp_ofExcept_ok (a : α) : wp (ofExcept (.ok a) : Exec ε σ α) Q E s ↔ Q a s := Iff.rfl

@[simp] lemma wp_ofExcept_error (e : ε) :
    wp (ofExcept (.error e) : Exec ε σ α) Q E s ↔ E e s := Iff.rfl

@[simp] lemma wp_bind {Q : β → σ → Prop} (x : Exec ε σ α) (f : α → Exec ε σ β) :
    wp (x >>= f) Q E s ↔ wp x (fun a => wp (f a) Q E) E s := by
  unfold wp
  rw [run_bind]
  rcases x.run s with ⟨_ | a, s'⟩ <;> rfl

lemma wp.mono {x : Exec ε σ α} (h : wp x Q E s) (hQ : ∀ a s', Q a s' → Q' a s')
    (hE : ∀ e s', E e s' → E' e s') : wp x Q' E' s := by
  unfold wp at h ⊢
  rcases hx : x.run s with ⟨e | a, s'⟩ <;> rw [hx] at h
  · exact hE e s' h
  · exact hQ a s' h

/-- The precondition of a computation whose result is known. -/
lemma wp_iff_of_run {x : Exec ε σ α} {a : α} {s' : σ} (h : x.run s = (.ok a, s')) :
    wp x Q E s ↔ Q a s' := by
  rw [wp, h]

/-- A computation that cannot stop returns a value. -/
lemma wp.returns {x : Exec ε σ α} (h : wp x Q (fun _ _ => False) s) :
    ∃ a s', x.run s = (.ok a, s') ∧ Q a s' := by
  unfold wp at h
  rcases hx : x.run s with ⟨e | a, s'⟩ <;> rw [hx] at h
  · exact h.elim
  · exact ⟨a, s', rfl, h⟩

/-- What holds of the last state however the computation ended. -/
lemma wp_last_iff {x : Exec ε σ α} {I : σ → Prop} :
    wp x (fun _ => I) (fun _ => I) s ↔ I (x.run s).2 := by
  unfold wp
  rcases x.run s with ⟨_ | _, s'⟩ <;> rfl

/-- The invariant rule for a loop over a list. -/
lemma wp_forM {I : σ → Prop} {l : List α} {f : α → Exec ε σ PUnit}
    (h : ∀ a ∈ l, ∀ s, I s → wp (f a) (fun _ => I) E s) (hs : I s) :
    wp (forM l f) (fun _ => I) E s := by
  induction l generalizing s with
  | nil => simpa using hs
  | cons a l ih =>
    rw [List.forM_cons, wp_bind]
    refine (h a (by simp) s hs).mono (fun _ s' hs' => ?_) (fun _ _ h => h)
    exact ih (fun b hb => h b (by simp [hb])) hs'

end Exec

end ArchExplorer.Lib
