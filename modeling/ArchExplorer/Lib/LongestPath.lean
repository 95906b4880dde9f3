import Mathlib.Data.List.Chain
import Mathlib.Tactic

/-!
# Longest paths in acyclic graphs

A table holds for every vertex a distance and the parent from which it was reached. `Longest` is the
equation that the table satisfies at a vertex; `Follows` describes the path that is read off the
table by following the parents back to a vertex of distance zero.
-/

namespace ArchExplorer.Lib

variable {V : Type} {parents : V → List V} {cost : V → V → ℤ} {table table' : V → ℤ × Option V}
  {u v p : V} {l : List V}

/-- The distance of `v` is the largest sum of the distance of a parent and the cost of the step from
it. A vertex without parents is its own parent, at distance zero. -/
structure Longest (parents : V → List V) (cost : V → V → ℤ) (table : V → ℤ × Option V) (v : V) :
    Prop where
  nonneg : 0 ≤ (table v).1
  root : parents v = [] → table v = (0, some v)
  best : parents v ≠ [] → ∃ p ∈ parents v, table v = ((table p).1 + cost p v, some p)
  le : ∀ p ∈ parents v, (table p).1 + cost p v ≤ (table v).1

/-- The equation depends on the vertex and its parents only. -/
lemma Longest.congr (h : Longest parents cost table v) (hv : table' v = table v)
    (hp : ∀ p ∈ parents v, table' p = table p) : Longest parents cost table' v where
  nonneg := hv ▸ h.nonneg
  root := fun hr => hv ▸ h.root hr
  best := fun hb => by
    obtain ⟨p, hpv, heq⟩ := h.best hb
    exact ⟨p, hpv, by rw [hv, heq, hp p hpv]⟩
  le := fun p hpv => by
    rw [hv, hp p hpv]
    exact h.le p hpv

/-- A vertex of positive distance was reached from a parent. -/
lemma Longest.exists_parent (h : Longest parents cost table v) (hv : (table v).1 ≠ 0) :
    ∃ p ∈ parents v, table v = ((table p).1 + cost p v, some p) := by
  apply h.best
  intro hr
  rw [h.root hr] at hv
  exact hv rfl

/-! ### Following the parents -/

/-- The list follows the parents of `v` back to a vertex of distance zero and ends with `v`. -/
inductive Follows (table : V → ℤ × Option V) : List V → V → Prop
  | start {v : V} (h : (table v).1 = 0) : Follows table [v] v
  | step {l : List V} {p v : V} (h : Follows table l p) (hv : (table v).1 ≠ 0)
      (hp : (table v).2 = some p) : Follows table (l ++ [v]) v

lemma Follows.getLast? (h : Follows table l v) : l.getLast? = some v := by
  cases h <;> simp

/-- If no vertex has a parent of the same or a higher rank, the parents lead to distance zero. -/
lemma exists_follows {S : V → Prop} (hS : ∀ v, S v → Longest parents cost table v)
    (hclosed : ∀ v, S v → ∀ p ∈ parents v, S p) (rank : V → ℕ)
    (hrank : ∀ v, S v → ∀ p ∈ parents v, rank p < rank v) (hv : S v) :
    ∃ l, Follows table l v ∧ l.length ≤ rank v + 1 := by
  induction hr : rank v using Nat.strong_induction_on generalizing v with
  | h r ih =>
    by_cases hzero : (table v).1 = 0
    · exact ⟨[v], .start hzero, by simp⟩
    · obtain ⟨p, hp, heq⟩ := (hS v hv).exists_parent hzero
      have hlt := hrank v hv p hp
      obtain ⟨l, hl, hlen⟩ := ih (rank p) (hr ▸ hlt) (hclosed v hv p hp) rfl
      refine ⟨l ++ [v], .step hl hzero (by rw [heq]), ?_⟩
      rw [List.length_append, List.length_singleton]
      omega

/-- Consecutive vertices of the path are a parent and a child that was reached from it. -/
lemma Follows.isChain {S : V → Prop} (h : Follows table l v)
    (hS : ∀ v, S v → Longest parents cost table v)
    (hclosed : ∀ v, S v → ∀ p ∈ parents v, S p) (hv : S v) :
    l.IsChain fun u w => u ∈ parents w ∧ (table w).1 = (table u).1 + cost u w := by
  induction h with
  | start h => exact List.isChain_singleton _
  | @step l p v h hzero hp ih =>
    obtain ⟨q, hq, heq⟩ := (hS v hv).exists_parent hzero
    obtain rfl : q = p := by simpa [heq] using hp
    refine List.isChain_append.mpr ⟨ih (hclosed v hv q hq), List.isChain_singleton _, ?_⟩
    intro x hx y hy
    obtain rfl : q = x := by simpa [h.getLast?] using hx
    obtain rfl : v = y := by simpa using hy
    exact ⟨hq, by rw [heq]⟩

/-- All vertices of the path belong to a set that is closed under parents. -/
lemma Follows.forall_mem {S : V → Prop} (h : Follows table l v)
    (hS : ∀ v, S v → Longest parents cost table v)
    (hclosed : ∀ v, S v → ∀ p ∈ parents v, S p) (hv : S v) : ∀ u ∈ l, S u := by
  induction h with
  | start h =>
    intro u hu
    rwa [List.mem_singleton.mp hu]
  | @step l p v h hzero hp ih =>
    obtain ⟨q, hq, heq⟩ := (hS v hv).exists_parent hzero
    obtain rfl : q = p := by simpa [heq] using hp
    intro u hu
    rcases List.mem_append.mp hu with hu | hu
    · exact ih (hclosed v hv q hq) u hu
    · rwa [List.mem_singleton.mp hu]

/-- Only the first vertex of the path has distance zero. -/
lemma Follows.exists_cons (h : Follows table l v) :
    ∃ u r, l = u :: r ∧ (table u).1 = 0 ∧ ∀ w ∈ r, (table w).1 ≠ 0 := by
  induction h with
  | @start v h => exact ⟨v, [], rfl, h, by simp⟩
  | @step l p v h hzero hp ih =>
    obtain ⟨u, r, rfl, hu, hr⟩ := ih
    refine ⟨u, r ++ [v], rfl, hu, fun w hw => ?_⟩
    rcases List.mem_append.mp hw with hw | hw
    · exact hr w hw
    · rwa [List.mem_singleton.mp hw]

/-- A path to a vertex of positive distance starts with a step of positive cost. -/
lemma Follows.first_step {S : V → Prop} (h : Follows table l v)
    (hS : ∀ v, S v → Longest parents cost table v)
    (hclosed : ∀ v, S v → ∀ p ∈ parents v, S p) (hv : S v) (hpos : (table v).1 ≠ 0) :
    ∃ u w r, l = u :: w :: r ∧ u ∈ parents w ∧ 0 < cost u w := by
  obtain ⟨u, r, rfl, hu, hr⟩ := h.exists_cons
  cases r with
  | nil =>
    obtain rfl : u = v := by simpa using h.getLast?
    exact absurd hu hpos
  | cons w r =>
    have hchain := (List.isChain_cons_cons.mp (h.isChain hS hclosed hv)).1
    have hw := (hS w (h.forall_mem hS hclosed hv w (by simp))).nonneg
    have hne := hr w List.mem_cons_self
    refine ⟨u, w, r, rfl, hchain.1, ?_⟩
    omega

end ArchExplorer.Lib
