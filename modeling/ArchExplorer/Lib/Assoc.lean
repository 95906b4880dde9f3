import Mathlib.Data.List.Nodup
import Mathlib.Tactic.Common

/-!
# Association lists read from both ends

A list of pairs in which the first entry of a key counts, and one in which the last entry counts. If
no two entries carry the same value, the two readings agree exactly if no key occurs twice.
-/

namespace ArchExplorer.Lib

variable {α β γ : Type} [BEq α] [LawfulBEq α] {l l' : List (α × β)} {a : α} {b : β}

lemma lookup_cons_ne {k : α} (h : a ≠ k) (l : List (α × β)) (b : β) :
    ((k, b) :: l).lookup a = l.lookup a := by
  rw [List.lookup_cons, beq_false_of_ne h]

lemma lookup_eq_none : l.lookup a = none ↔ a ∉ l.map Prod.fst := by
  rw [List.lookup_eq_none_iff, List.mem_map, not_exists]
  refine forall_congr' fun x => ?_
  rw [bne_iff_ne, not_and, ne_comm]

/-- What is found is an entry. -/
lemma mem_of_lookup (h : l.lookup a = some b) : (a, b) ∈ l := by
  obtain ⟨l₁, l₂, rfl, -⟩ := List.lookup_eq_some_iff.mp h
  simp

lemma exists_lookup (h : a ∈ l.map Prod.fst) : ∃ b, l.lookup a = some b := by
  rw [← Option.isSome_iff_exists, Option.isSome_iff_ne_none, ne_eq, lookup_eq_none, not_not]
  exact h

omit [LawfulBEq α] in
/-- A list read from the back. -/
lemma lookup_reverse_cons (l : List (α × β)) (k : α) (b : β) (a : α) :
    ((k, b) :: l).reverse.lookup a = (l.reverse.lookup a).or ([(k, b)].lookup a) := by
  rw [List.reverse_cons, List.lookup_append]

/-- Reading a list from the front and from the back gives the same exactly if no key occurs twice,
provided that the values tell the entries apart. -/
lemma lookup_reverse_iff (h : (l.map Prod.snd).Nodup) :
    (∀ a, l.lookup a = l.reverse.lookup a) ↔ (l.map Prod.fst).Nodup := by
  induction l with
  | nil => simp
  | cons x l ih =>
    obtain ⟨k, b⟩ := x
    obtain ⟨hb, h⟩ := List.nodup_cons.mp h
    -- if the key is not found in the rest, the two readings of the rest decide
    have hrest (hk : k ∉ l.map Prod.fst) :
        (∀ a, ((k, b) :: l).lookup a = ((k, b) :: l).reverse.lookup a) ↔
          ∀ a, l.lookup a = l.reverse.lookup a := by
      have hnone : l.lookup k = none := lookup_eq_none.mpr hk
      have hnone' : l.reverse.lookup k = none := lookup_eq_none.mpr (by simpa using hk)
      refine forall_congr' fun a => ?_
      rw [lookup_reverse_cons]
      by_cases ha : a = k
      · subst ha
        simp [hnone, hnone']
      · simp [lookup_cons_ne ha]
    rw [List.map_cons, List.nodup_cons]
    constructor
    · intro hall
      have hk : k ∉ l.map Prod.fst := by
        intro hk
        obtain ⟨c, hc⟩ := exists_lookup (l := l.reverse) (a := k) (by simpa using hk)
        have hfront := hall k
        rw [List.lookup_cons_self, lookup_reverse_cons, hc, Option.some_or,
          Option.some.injEq] at hfront
        have hmem := mem_of_lookup hc
        rw [← hfront, List.mem_reverse] at hmem
        exact hb (List.mem_map_of_mem hmem)
      exact ⟨hk, (ih h).mp ((hrest hk).mp hall)⟩
    · rintro ⟨hk, hnodup⟩
      exact (hrest hk).mpr ((ih h).mpr hnodup)

/-- The same if the list that is read from the back has one more entry. It must not be the one that
is read. -/
lemma lookup_reverse_insert_iff {p : α} {c : β}
    (h : ((l ++ (p, c) :: l').map Prod.snd).Nodup) :
    (∀ a, (l ++ l').lookup a = (l ++ (p, c) :: l').reverse.lookup a) ↔
      ((l ++ l').map Prod.fst).Nodup ∧ p ∈ l'.map Prod.fst := by
  have hmove : ((l ++ (p, c) :: l').map Prod.snd).Perm (c :: (l ++ l').map Prod.snd) := by
    simp
  obtain ⟨hc, hsub⟩ := List.nodup_cons.mp (hmove.nodup_iff.mp h)
  have hback (a : α) : (l ++ (p, c) :: l').reverse.lookup a =
      ((l'.reverse.lookup a).or ([(p, c)].lookup a)).or (l.reverse.lookup a) := by
    rw [List.reverse_append, List.reverse_cons, List.lookup_append, List.lookup_append]
  have hback' (a : α) : (l ++ l').reverse.lookup a =
      (l'.reverse.lookup a).or (l.reverse.lookup a) := by
    rw [List.reverse_append, List.lookup_append]
  -- the new entry is not read if there is a later one for its key
  have hsame (hp : p ∈ l'.map Prod.fst) (a : α) :
      (l ++ (p, c) :: l').reverse.lookup a = (l ++ l').reverse.lookup a := by
    rw [hback, hback']
    by_cases ha : a = p
    · obtain ⟨d, hd⟩ := exists_lookup (l := l'.reverse) (a := a) (by simpa [ha] using hp)
      rw [hd, Option.some_or, Option.some_or]
    · rw [lookup_cons_ne ha, List.lookup_nil, Option.or_none]
  constructor
  · intro hall
    have hp : p ∈ l'.map Prod.fst := by
      by_contra hp
      have hnone : l'.reverse.lookup p = none := lookup_eq_none.mpr (by simpa using hp)
      have hread := hall p
      rw [hback, hnone, List.lookup_cons_self, Option.none_or, Option.some_or] at hread
      exact hc (List.mem_map_of_mem (mem_of_lookup hread))
    refine ⟨(lookup_reverse_iff hsub).mp fun a => ?_, hp⟩
    rw [hall a, hsame hp a]
  · rintro ⟨hnodup, hp⟩ a
    rw [hsame hp a, (lookup_reverse_iff hsub).mpr hnodup a]

/-- Searching the images of the entries for those of a key. -/
lemma find?_map_lookup {f : α × β → γ} {q : γ → Bool} (h : ∀ x ∈ l, q (f x) = (x.1 == a)) :
    (l.map f).find? q = (l.lookup a).map fun b => f (a, b) := by
  induction l with
  | nil => rfl
  | cons x l ih =>
    obtain ⟨k, b⟩ := x
    obtain ⟨hx, hl⟩ := List.forall_mem_cons.mp h
    rw [List.map_cons, List.find?_cons, hx]
    by_cases hk : k = a
    · subst hk
      simp
    · rw [beq_false_of_ne hk, lookup_cons_ne (Ne.symm hk)]
      exact ih hl

end ArchExplorer.Lib
