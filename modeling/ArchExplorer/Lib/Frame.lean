import ArchExplorer.Lib.Exec

/-!
# Computations that touch some positions of a list

The state is a list. A local computation keeps its length, reads and writes only positions that
satisfy `P`, and behaves in the same way on lists that agree there. Two computations on disjoint
sets of positions do not see each other.
-/

namespace ArchExplorer.Lib

variable {ε α β γ : Type} {P Q : ℕ → Prop} {l l' : List α}

/-- Two lists have the same length and the same entries at the positions of `P`. -/
structure AgreeOn (P : ℕ → Prop) (l l' : List α) : Prop where
  length : l.length = l'.length
  entry : ∀ p, P p → l[p]? = l'[p]?

lemma AgreeOn.mono (h : AgreeOn P l l') (hQ : ∀ p, Q p → P p) : AgreeOn Q l l' :=
  ⟨h.length, fun p hp => h.entry p (hQ p hp)⟩

/-- The computation touches only the positions of `P`. -/
structure Local (P : ℕ → Prop) (x : Exec ε (List α) β) : Prop where
  frame : ∀ l, AgreeOn (fun p => ¬ P p) (x.run l).2 l
  result : ∀ l l', AgreeOn P l l' → (x.run l).1 = (x.run l').1
  entries : ∀ l l', AgreeOn P l l' → AgreeOn P (x.run l).2 (x.run l').2

namespace Local

variable {x : Exec ε (List α) β} {f : β → Exec ε (List α) γ}

lemma pure (b : β) : Local P (Pure.pure b : Exec ε (List α) β) :=
  ⟨fun _ => ⟨rfl, fun _ _ => rfl⟩, fun _ _ _ => rfl, fun _ _ h => h⟩

lemma throw (e : ε) : Local P (Exec.throw e : Exec ε (List α) β) :=
  ⟨fun _ => ⟨rfl, fun _ _ => rfl⟩, fun _ _ _ => rfl, fun _ _ h => h⟩

lemma ofExcept (r : Except ε β) : Local P (Exec.ofExcept r : Exec ε (List α) β) :=
  ⟨fun _ => ⟨rfl, fun _ _ => rfl⟩, fun _ _ _ => rfl, fun _ _ h => h⟩

lemma bind (hx : Local P x) (hf : ∀ b, Local P (f b)) : Local P (x >>= f) := by
  refine ⟨fun l => ?_, fun l l' h => ?_, fun l l' h => ?_⟩
  · have hframe := hx.frame l
    rw [Exec.run_bind]
    rcases hrun : x.run l with ⟨e | b, l₁⟩ <;> rw [hrun] at hframe
    · exact hframe
    · have hrest := (hf b).frame l₁
      exact ⟨hrest.length.trans hframe.length,
        fun p hp => (hrest.entry p hp).trans (hframe.entry p hp)⟩
  all_goals
    have hres := hx.result l l' h
    have hent := hx.entries l l' h
    rw [Exec.run_bind, Exec.run_bind]
    rcases hrun : x.run l with ⟨e | b, l₁⟩ <;> rcases hrun' : x.run l' with ⟨e' | b', l₁'⟩ <;>
      rw [hrun, hrun'] at hres hent <;> cases hres
  · rfl
  · exact (hf b).result l₁ l₁' hent
  · exact hent
  · exact (hf b).entries l₁ l₁' hent

lemma ite {c : Prop} [Decidable c] {y : Exec ε (List α) β} (hx : Local P x) (hy : Local P y) :
    Local P (if c then x else y) := by
  split_ifs
  · exact hx
  · exact hy

lemma mono (hx : Local P x) (hPQ : ∀ p, P p → Q p) : Local Q x := by
  refine ⟨fun l => (hx.frame l).mono fun p hp hP => hp (hPQ p hP),
    fun l l' h => hx.result l l' (h.mono hPQ), fun l l' h => ?_⟩
  have hent := hx.entries l l' (h.mono hPQ)
  refine ⟨hent.length, fun p hp => ?_⟩
  by_cases hP : P p
  · exact hent.entry p hP
  · rw [(hx.frame l).entry p hP, (hx.frame l').entry p hP, h.entry p hp]

lemma length_run (hx : Local P x) (l : List α) : (x.run l).2.length = l.length :=
  (hx.frame l).length

/-- What a computation on other positions has done is not seen, and it is kept. -/
lemma run_bind_disjoint {b : β} {l₁ : List α} (hx : Local P x) (hf : Local Q (f b))
    (hdisj : ∀ p, Q p → ¬ P p) (hrun : x.run l = (.ok b, l₁)) :
    ((x >>= f).run l).1 = ((f b).run l).1 ∧
      (∀ p, Q p → ((x >>= f).run l).2[p]? = ((f b).run l).2[p]?) ∧
      ∀ p, ¬ Q p → ((x >>= f).run l).2[p]? = l₁[p]? := by
  have hagree : AgreeOn Q l₁ l := by
    have hframe := hx.frame l
    rw [hrun] at hframe
    exact hframe.mono hdisj
  rw [Exec.run_bind_ok hrun]
  exact ⟨hf.result _ _ hagree, (hf.entries _ _ hagree).entry, (hf.frame l₁).entry⟩

lemma forM_list {κ : Type} {ks : List κ} {g : κ → Exec ε (List α) PUnit}
    (hg : ∀ k ∈ ks, Local P (g k)) : Local P (forM ks g) := by
  induction ks with
  | nil => exact .pure _
  | cons k ks ih =>
    obtain ⟨hk, hks⟩ := List.forall_mem_cons.mp hg
    rw [List.forM_cons]
    exact hk.bind fun _ => ih hks

section Family

variable {κ : Type} {ks : List κ} {g : κ → Exec ε (List α) PUnit} {F : κ → ℕ → Prop}
  (hg : ∀ k, Local (F k) (g k)) (hdisj : ∀ k k' p, F k p → F k' p → k = k')

include hg hdisj

/-- The computations of a loop over distinct keys do not see each other. -/
lemma forM_disjoint (hnodup : ks.Nodup) (hok : ∀ k ∈ ks, ((g k).run l).1 = .ok ()) :
    ∃ l', (forM ks g).run l = (.ok (), l') ∧
      (∀ k ∈ ks, ∀ p, F k p → l'[p]? = ((g k).run l).2[p]?) ∧
      ∀ p, (∀ k ∈ ks, ¬ F k p) → l'[p]? = l[p]? := by
  induction ks with
  | nil => exact ⟨l, rfl, nofun, fun _ _ => rfl⟩
  | cons k ks ih =>
    rw [List.nodup_cons] at hnodup
    obtain ⟨hk, hks⟩ := List.forall_mem_cons.mp hok
    obtain ⟨l₂, hrun₂, hkeys, -⟩ := ih hnodup.2 hks
    have hrest : Local (fun p => ∃ k' ∈ ks, F k' p) (forM ks g) :=
      forM_list fun k' hk' => (hg k').mono fun p hp => ⟨k', hk', hp⟩
    have hapart : ∀ p, (∃ k' ∈ ks, F k' p) → ¬ F k p := by
      rintro p ⟨k', hk', hp'⟩ hp
      exact hnodup.1 (hdisj k k' p hp hp' ▸ hk')
    have hrun : (g k).run l = (.ok (), ((g k).run l).2) := Prod.ext hk rfl
    obtain ⟨hres, hin, hout⟩ := (hg k).run_bind_disjoint (f := fun _ => forM ks g) hrest hapart hrun
    rw [hrun₂] at hres hin
    refine ⟨((g k >>= fun _ => forM ks g).run l).2, ?_, ?_, fun p hp => ?_⟩
    · rw [List.forM_cons]
      exact Prod.ext hres rfl
    · refine List.forall_mem_cons.mpr ⟨fun p hp => hout p fun hq => hapart p hq hp, ?_⟩
      exact fun k' hk' p hp => (hin p ⟨k', hk', hp⟩).trans (hkeys k' hk' p hp)
    · obtain ⟨hp, hps⟩ := List.forall_mem_cons.mp hp
      rw [hout p fun ⟨k', hk', hq⟩ => hps k' hk' hq, ((hg k).frame l).entry p hp]

/-- Each computation of a loop that returns would have returned alone. -/
lemma of_forM_disjoint {l' : List α} (hnodup : ks.Nodup) (hrun : (forM ks g).run l = (.ok (), l')) :
    ∀ k ∈ ks, ((g k).run l).1 = .ok () := by
  induction ks generalizing l l' with
  | nil => nofun
  | cons k ks ih =>
    rw [List.nodup_cons] at hnodup
    rw [List.forM_cons] at hrun
    obtain ⟨_, l₁, hk, hrest⟩ := Exec.run_bind_eq_ok hrun
    refine List.forall_mem_cons.mpr ⟨by rw [hk], fun k' hk' => ?_⟩
    have hframe := (hg k).frame l
    rw [hk] at hframe
    rw [← (hg k').result l₁ l (hframe.mono fun p hp' hp => hnodup.1 (hdisj k k' p hp hp' ▸ hk'))]
    exact ih hnodup.2 hrest k' hk'

end Family

end Local

end ArchExplorer.Lib
