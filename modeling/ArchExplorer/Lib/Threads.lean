import Mathlib.Data.List.Basic

/-!
# Threads that are not all awaited

A thread takes atomic actions and starts other threads. A call that starts some threads and waits
for these, but not for the threads that they start in turn, returns with a history of actions that
depends on the schedule: it holds the actions of the threads that are awaited, and any of the
others. Both extremes occur.
-/

namespace ArchExplorer.Lib.Threads

variable {α : Type}

/-- The program of a thread. -/
inductive Prog (α : Type)
  | done
  | act (a : α) (next : Prog α)
  | start (child next : Prog α)

namespace Prog

/-- The actions that the thread takes itself. -/
def own : Prog α → List α
  | done         => []
  | act a next   => a :: next.own
  | start _ next => next.own

/-- The actions of the thread and of all threads that it starts. -/
def all : Prog α → List α
  | done             => []
  | act a next       => a :: next.all
  | start child next => child.all ++ next.all

/-- The steps that are left, including those of the threads to be started. -/
def size : Prog α → ℕ
  | done             => 0
  | act _ next       => next.size + 1
  | start child next => child.size + next.size + 1

/-- A thread that takes some actions one after the other. -/
def ofList : List α → Prog α
  | []      => done
  | a :: as => act a (ofList as)

/-- A thread that starts some threads and goes on. -/
def startAll (children : List (Prog α)) (next : Prog α) : Prog α := children.foldr start next

@[simp] lemma own_ofList (as : List α) : (ofList as).own = as := by
  induction as with
  | nil => rfl
  | cons a as ih => rw [ofList, own, ih]

@[simp] lemma all_ofList (as : List α) : (ofList as).all = as := by
  induction as with
  | nil => rfl
  | cons a as ih => rw [ofList, all, ih]

@[simp] lemma own_startAll (children : List (Prog α)) (next : Prog α) :
    (startAll children next).own = next.own := by
  induction children with
  | nil => rfl
  | cons child children ih => exact ih

@[simp] lemma all_startAll (children : List (Prog α)) (next : Prog α) :
    (startAll children next).all = children.flatMap all ++ next.all := by
  induction children with
  | nil => rfl
  | cons child children ih =>
    rw [List.flatMap_cons, List.append_assoc, ← ih]
    rfl

end Prog

/-! ### Interleavings -/

/-- The threads `ps` that are awaited have become `qs`, the threads `os` have been started by them
or by one another, and the actions `h` have been taken, in this order. -/
inductive Runs (ps : List (Prog α)) : List α → List (Prog α) → List (Prog α) → Prop
  | refl : Runs ps [] ps []
  | act {h : List α} {l r os : List (Prog α)} {a : α} {next : Prog α} :
      Runs ps h (l ++ .act a next :: r) os → Runs ps (h ++ [a]) (l ++ next :: r) os
  | start {h : List α} {l r os : List (Prog α)} {child next : Prog α} :
      Runs ps h (l ++ .start child next :: r) os → Runs ps h (l ++ next :: r) (child :: os)
  | otherAct {h : List α} {qs l r : List (Prog α)} {a : α} {next : Prog α} :
      Runs ps h qs (l ++ .act a next :: r) → Runs ps (h ++ [a]) qs (l ++ next :: r)
  | otherStart {h : List α} {qs l r : List (Prog α)} {child next : Prog α} :
      Runs ps h qs (l ++ .start child next :: r) → Runs ps h qs (child :: (l ++ next :: r))

/-- A history with which a call may return that waits for the threads `ps`. -/
def Returns (ps : List (Prog α)) (h : List α) : Prop :=
  ∃ qs os, Runs ps h qs os ∧ ∀ q ∈ qs, q = .done

variable {ps qs os l r : List (Prog α)} {h : List α} {a : α}

/-- Nothing is done that no thread has in its program. -/
lemma Runs.mem_all (hr : Runs ps h qs os) :
    ∀ a ∈ h ++ (qs ++ os).flatMap Prog.all, a ∈ ps.flatMap Prog.all := by
  induction hr with
  | refl => simp
  | act _ ih | start _ ih | otherAct _ ih | otherStart _ ih =>
    intro a ha
    apply ih a
    simp only [List.mem_append, List.flatMap_append, List.flatMap_cons, Prog.all,
      List.mem_cons, List.not_mem_nil] at ha ⊢
    tauto

/-- What an awaited thread does not have to do any more has been done. -/
lemma Runs.mem_own (hr : Runs ps h qs os) :
    ∀ a ∈ ps.flatMap Prog.own, a ∈ h ++ qs.flatMap Prog.own := by
  induction hr with
  | refl => simp
  | act _ ih | start _ ih | otherAct _ ih | otherStart _ ih =>
    intro a ha
    have := ih a ha
    simp only [List.mem_append, List.flatMap_append, List.flatMap_cons, Prog.own,
      List.mem_cons, List.not_mem_nil] at this ⊢
    tauto

lemma Returns.subset_all (hr : Returns ps h) : h ⊆ ps.flatMap Prog.all := by
  obtain ⟨qs, os, hr, -⟩ := hr
  exact fun a ha => hr.mem_all a (List.mem_append_left _ ha)

lemma Returns.own_subset (hr : Returns ps h) : ps.flatMap Prog.own ⊆ h := by
  obtain ⟨qs, os, hr, hdone⟩ := hr
  intro a ha
  refine (List.mem_append.mp (hr.mem_own a ha)).resolve_right fun hmem => ?_
  obtain ⟨q, hq, haq⟩ := List.mem_flatMap.mp hmem
  rw [hdone q hq] at haq
  exact List.not_mem_nil haq

/-! ### Schedules -/

/-- An awaited thread may go on alone to its end. -/
lemma Runs.finish {q : Prog α} (hr : Runs ps h (l ++ q :: r) os) :
    ∃ os', Runs ps (h ++ q.own) (l ++ .done :: r) os' ∧
      ∀ a ∈ os.flatMap Prog.all ++ q.all, a ∈ q.own ++ os'.flatMap Prog.all := by
  induction q generalizing h os with
  | done => exact ⟨os, by rwa [Prog.own, List.append_nil], by simp [Prog.all, Prog.own]⟩
  | act a next ih =>
    obtain ⟨os', hr', hmem⟩ := ih hr.act
    refine ⟨os', by rwa [List.append_assoc] at hr', fun b hb => ?_⟩
    have := hmem b
    simp only [List.mem_append, Prog.all, Prog.own, List.mem_cons] at hb this ⊢
    tauto
  | start child next _ ih =>
    obtain ⟨os', hr', hmem⟩ := ih hr.start
    refine ⟨os', hr', fun b hb => ?_⟩
    have := hmem b
    simp only [List.mem_append, List.flatMap_cons, Prog.all, Prog.own] at hb this ⊢
    tauto

/-- The awaited threads may go on one after the other, before all others. -/
lemma Runs.finishAll (hr : Runs ps h (l ++ r) os) (hl : ∀ q ∈ l, q = .done) :
    ∃ qs os', Runs ps (h ++ r.flatMap Prog.own) qs os' ∧ (∀ q ∈ qs, q = .done) ∧
      ∀ a ∈ os.flatMap Prog.all ++ r.flatMap Prog.all,
        a ∈ r.flatMap Prog.own ++ os'.flatMap Prog.all := by
  induction r generalizing h l os with
  | nil => exact ⟨l, os, by simpa using hr, hl, by simp⟩
  | cons q r ih =>
    obtain ⟨os₁, hr₁, hmem₁⟩ := hr.finish
    obtain ⟨qs, os₂, hr₂, hdone, hmem₂⟩ := ih (l := l ++ [.done])
      (by rwa [List.append_assoc, List.singleton_append]) (by
        simp only [List.mem_append, List.mem_singleton]
        rintro q (hq | rfl)
        exacts [hl q hq, rfl])
    refine ⟨qs, os₂, by rwa [List.append_assoc, ← List.flatMap_cons] at hr₂, hdone, fun b hb => ?_⟩
    have h₁ := hmem₁ b
    have h₂ := hmem₂ b
    simp only [List.mem_append, List.flatMap_cons] at hb h₁ h₂ ⊢
    tauto

/-- The other threads may go on until all of them have ended. -/
lemma Runs.finishOthers (hr : Runs ps h qs os) :
    ∃ h' os', Runs ps (h ++ h') qs os' ∧ os.flatMap Prog.all ⊆ h' := by
  -- the steps that are left become fewer
  induction hn : (os.map Prog.size).sum using Nat.strongRecOn generalizing h os with
  | ind n ih =>
    subst hn
    by_cases hdone : ∀ q ∈ os, q = .done
    · refine ⟨[], os, by rwa [List.append_nil], fun a ha => ?_⟩
      obtain ⟨q, hq, haq⟩ := List.mem_flatMap.mp ha
      rwa [hdone q hq] at haq
    push Not at hdone
    obtain ⟨q, hq, hne⟩ := hdone
    obtain ⟨l, r, rfl⟩ := List.append_of_mem hq
    cases q with
    | done => exact absurd rfl hne
    | act a next =>
      obtain ⟨h', os', hr', hsub⟩ := ih _ (by simp [Prog.size]) hr.otherAct rfl
      refine ⟨a :: h', os', by rwa [List.append_assoc] at hr', fun b hb => ?_⟩
      have := @hsub b
      simp only [List.mem_append, List.flatMap_append, List.flatMap_cons, Prog.all,
        List.mem_cons] at hb this ⊢
      tauto
    | start child next =>
      obtain ⟨h', os', hr', hsub⟩ := ih _ (by simp [Prog.size]; omega) hr.otherStart rfl
      refine ⟨h', os', hr', fun b hb => hsub ?_⟩
      simp only [List.mem_append, List.flatMap_append, List.flatMap_cons, Prog.all] at hb ⊢
      tauto

/-- The call may return before any thread that is not awaited has done anything. -/
theorem returns_own (ps : List (Prog α)) : Returns ps (ps.flatMap Prog.own) := by
  obtain ⟨qs, os, hr, hdone, -⟩ := Runs.finishAll (l := []) (Runs.refl : Runs ps [] ps []) nofun
  exact ⟨qs, os, hr, hdone⟩

/-- The call may return after everything has been done. -/
theorem exists_returns_all (ps : List (Prog α)) : ∃ h, Returns ps h ∧ ps.flatMap Prog.all ⊆ h := by
  obtain ⟨qs, os, hr, hdone, hmem⟩ := Runs.finishAll (l := []) (Runs.refl : Runs ps [] ps []) nofun
  obtain ⟨h', os', hr', hsub⟩ := hr.finishOthers
  refine ⟨_, ⟨qs, os', hr', hdone⟩, fun a ha => ?_⟩
  have := hmem a (List.mem_append_right _ ha)
  rw [List.mem_append] at this ⊢
  exact this.imp id fun ha' => hsub ha'

end ArchExplorer.Lib.Threads
