import Mathlib.Data.List.Pairwise
import Mathlib.Data.List.Sort
import Mathlib.Data.List.TakeWhile
import Mathlib.Order.Basic

/-!
# Scans of sorted lists

Two searches in a list that is sorted by a key: for the first entry that qualifies, and for the
first entry that qualifies from a time on together with the entries of the same time that follow it.
On a sorted list they find the least entries, provided that among entries of one time those that
qualify come last.
-/

namespace ArchExplorer.Lib.Scan

variable {α ν ν' τ : Type}

/-! ### Nearest elements -/

/-- `w` is a least element of those in `T` that come later than `v`. -/
def Nearest (later le : ν → ν → Prop) (T : ν → Prop) (v w : ν) : Prop :=
  T w ∧ later v w ∧ ∀ w', T w' → later v w' → le w w'

section Nearest

variable {later le : ν → ν → Prop} {T T' : ν → Prop} {v w : ν}

/-- Only later elements matter. -/
lemma nearest_congr (h : ∀ x, later v x → (T x ↔ T' x)) :
    Nearest later le T v w ↔ Nearest later le T' v w := by
  constructor
  · rintro ⟨hw, hlater, hleast⟩
    exact ⟨(h w hlater).mp hw, hlater, fun x hx hx' => hleast x ((h x hx').mpr hx) hx'⟩
  · rintro ⟨hw, hlater, hleast⟩
    exact ⟨(h w hlater).mpr hw, hlater, fun x hx hx' => hleast x ((h x hx').mp hx) hx'⟩

/-- Nearest elements under a map that keeps the two relations. -/
lemma nearest_map {f : ν → ν'} {later' le' : ν' → ν' → Prop} {T' : ν' → Prop}
    (hlater : ∀ x y, later' (f x) (f y) ↔ later x y) (hle : ∀ x y, le' (f x) (f y) ↔ le x y)
    (hT : ∀ y, T' y ↔ ∃ x, T x ∧ f x = y) (hinj : ∀ x, T x → f x = f w → x = w) :
    Nearest later' le' T' (f v) (f w) ↔ Nearest later le T v w := by
  constructor
  · rintro ⟨hw, hvw, hleast⟩
    obtain ⟨x, hx, heq⟩ := (hT _).mp hw
    obtain rfl := hinj x hx heq
    refine ⟨hx, (hlater v x).mp hvw, fun y hy hvy => (hle x y).mp ?_⟩
    exact hleast (f y) ((hT _).mpr ⟨y, hy, rfl⟩) ((hlater v y).mpr hvy)
  · rintro ⟨hw, hvw, hleast⟩
    refine ⟨(hT _).mpr ⟨w, hw, rfl⟩, (hlater v w).mpr hvw, fun z hz hvz => ?_⟩
    obtain ⟨y, hy, rfl⟩ := (hT z).mp hz
    exact (hle w y).mpr (hleast y hy ((hlater v y).mp hvz))

end Nearest

/-! ### First elements -/

/-- Of the elements in `T` that are the same as `v`, `v` comes first. -/
def First (same le : ν → ν → Prop) (T : ν → Prop) (v : ν) : Prop :=
  T v ∧ ∀ u, T u → same u v → le v u

section First

variable {later same le : ν → ν → Prop} {T T' : ν → Prop} {v w : ν}

/-- Only later elements matter to a later one. -/
lemma first_congr (hsame : ∀ x y, same y x → later v x → later v y)
    (h : ∀ x, later v x → (T x ↔ T' x)) (hw : later v w) :
    First same le T w ↔ First same le T' w := by
  refine and_congr (h w hw) (forall_congr' fun u => ?_)
  constructor
  · intro hu hT' hs
    exact hu ((h u (hsame w u hs hw)).mpr hT') hs
  · intro hu hT hs
    exact hu ((h u (hsame w u hs hw)).mp hT) hs

/-- First elements under a map that keeps the two relations. -/
lemma first_map {f : ν → ν'} {same' le' : ν' → ν' → Prop} {T' : ν' → Prop}
    (hsame : ∀ x y, same' (f x) (f y) ↔ same x y)
    (hle : ∀ x y, T x → T y → same y x → (le' (f x) (f y) ↔ le x y))
    (hT : ∀ y, T' y ↔ ∃ x, T x ∧ f x = y) (y : ν') :
    First same' le' T' y ↔ ∃ x, First same le T x ∧ f x = y := by
  constructor
  · rintro ⟨hy, hfirst⟩
    obtain ⟨x, hx, rfl⟩ := (hT y).mp hy
    refine ⟨x, ⟨hx, fun u hu hs => (hle x u hx hu hs).mp ?_⟩, rfl⟩
    exact hfirst (f u) ((hT _).mpr ⟨u, hu, rfl⟩) ((hsame u x).mpr hs)
  · rintro ⟨x, ⟨hx, hfirst⟩, rfl⟩
    refine ⟨(hT _).mpr ⟨x, hx, rfl⟩, fun z hz hs => ?_⟩
    obtain ⟨u, hu, rfl⟩ := (hT z).mp hz
    have hs' := (hsame u x).mp hs
    exact (hle x u hx hu hs').mpr (hfirst u hu hs')

end First

/-! ### Elements that can be listed -/

/-- The elements in `T` are those of a list. -/
class Enumerated (T : ν → Prop) where
  list : List ν
  mem_list : ∀ v, v ∈ list ↔ T v

namespace Enumerated

section

variable {T T' : ν → Prop} [Enumerated T]

/-- The elements in one of two sets. -/
abbrev union (T T' : ν → Prop) [Enumerated T] [Enumerated T'] :
    Enumerated fun v => T v ∨ T' v :=
  ⟨list T ++ list T', fun v => List.mem_append.trans (or_congr (mem_list v) (mem_list v))⟩

lemma mem_filter {p : ν → Prop} [DecidablePred p] (v : ν) :
    v ∈ (list T).filter p ↔ T v ∧ p v := by
  rw [List.mem_filter, mem_list, decide_eq_true_eq]

/-- The elements with a property. -/
abbrev filter (T p : ν → Prop) [Enumerated T] [DecidablePred p] : Enumerated fun v => T v ∧ p v :=
  ⟨(list T).filter p, mem_filter⟩

abbrev decidableMem [DecidableEq ν] (T : ν → Prop) [Enumerated T] : DecidablePred T :=
  fun v => decidable_of_iff _ (mem_list v)

lemma forall_iff {p : ν → Prop} : (∀ v ∈ list T, p v) ↔ ∀ v, T v → p v :=
  forall_congr' fun v => imp_congr_left (mem_list v)

lemma exists_iff {p : ν → Prop} : (∃ v ∈ list T, p v) ↔ ∃ v, T v ∧ p v :=
  exists_congr fun v => and_congr_left fun _ => mem_list v

instance {p : ν → Prop} [DecidablePred p] : Decidable (∀ v, T v → p v) :=
  decidable_of_iff _ forall_iff

instance {p : ν → Prop} [DecidablePred p] : Decidable (∃ v, T v ∧ p v) :=
  decidable_of_iff _ exists_iff

end

variable {later same le : ν → ν → Prop} {T : ν → Prop} {v w : ν} [Enumerated T]

instance [DecidableEq ν] [DecidableRel later] [DecidableRel le] :
    Decidable (Nearest later le T v w) :=
  haveI := decidableMem T
  inferInstanceAs (Decidable (T w ∧ later v w ∧ ∀ x, T x → later v x → le w x))

instance [DecidableRel same] [DecidableRel le] : Enumerated (First same le T) :=
  filter T fun v => ∀ u, T u → same u v → le v u

end Enumerated

/-! ### The first entry -/

section Find

variable {q : α → Bool} {R : α → α → Prop} {l : List α} {a : α}

/-- The first entry that qualifies comes before all others. -/
lemma least_of_find? (hl : l.Pairwise R) (h : l.find? q = some a) :
    a ∈ l ∧ q a = true ∧ ∀ b ∈ l, q b = true → a = b ∨ R a b := by
  obtain ⟨hq, before, after, rfl, hbefore⟩ := List.find?_eq_some_iff_append.mp h
  refine ⟨by simp, hq, fun b hb hqb => ?_⟩
  rcases List.mem_append.mp hb with hb | hb
  · have := hbefore b hb
    simp [hqb] at this
  · rcases List.mem_cons.mp hb with rfl | hb
    · exact .inl rfl
    · exact .inr ((List.pairwise_cons.mp (List.pairwise_append.mp hl).2.1).1 b hb)

/-- A loop over the positions of a list that stops at the first entry that qualifies. -/
lemma loop_eq_find? {ε : Type} {f : ℕ → ℕ → Except ε (Option α)}
    (hend : ∀ n i, l.length ≤ i → f n i = .ok none)
    (hstep : ∀ n i (hi : i < l.length), f (n + 1) i =
      if q l[i] = true then .ok (some l[i]) else f n (i + 1)) (n i : ℕ) (hn : l.length < n + i) :
    f n i = .ok ((l.drop i).find? q) := by
  induction n generalizing i with
  | zero => rw [hend 0 i (by omega), List.drop_eq_nil_of_le (by omega), List.find?_nil]
  | succ n ih =>
    by_cases hi : i < l.length
    · rw [hstep n i hi, List.drop_eq_getElem_cons hi, List.find?_cons]
      cases q l[i] with
      | true  => rfl
      | false => exact ih (i + 1) (by omega)
    · rw [hend _ i (not_lt.mp hi), List.drop_eq_nil_of_le (not_lt.mp hi), List.find?_nil]

end Find

/-! ### The first entries in time -/

section InTime

variable [LinearOrder τ] {time : α → τ} {p : α → Bool} {start : τ} {l : List α} {a : α}

/-- The first entry from `start` on that satisfies `p`, with the entries of the same time that
follow it up to the first one that does not satisfy `p`. -/
def nextInTime (time : α → τ) (p : α → Bool) (start : τ) : List α → List α
  | []     => []
  | a :: l =>
    if start ≤ time a ∧ p a = true then a :: l.takeWhile fun b => p b ∧ time a = time b
    else nextInTime time p start l

/-- The entries before the first one that qualifies are dropped. -/
lemma nextInTime_eq (l : List α) : nextInTime time p start l =
    match l.dropWhile fun a => ¬(start ≤ time a ∧ p a = true) with
    | []     => []
    | a :: r => a :: r.takeWhile fun b => p b ∧ time a = time b := by
  induction l with
  | nil => rfl
  | cons a l ih =>
    rw [nextInTime]
    split_ifs with ha
    · rw [List.dropWhile_cons_of_neg (by simp [ha])]
    · rw [List.dropWhile_cons_of_pos (by exact decide_eq_true ha), ih]

/-- The list is sorted by time, and entries of one time that satisfy `p` come last. -/
def SortedBy (time : α → τ) (p : α → Bool) (l : List α) : Prop :=
  l.Pairwise fun a b => time a ≤ time b ∧ (time a = time b → p a = true → p b = true)

/-- On such a list the entries of the time of the first one are a prefix. -/
lemma mem_takeWhile_iff (hp : p a = true) (hl : SortedBy time p (a :: l)) {b : α} :
    b ∈ l.takeWhile (fun b => p b ∧ time a = time b) ↔ b ∈ l ∧ time a = time b := by
  obtain ⟨hhead, htail⟩ := List.pairwise_cons.mp hl
  constructor
  · intro hb
    have := List.mem_takeWhile_imp hb
    exact ⟨(List.takeWhile_prefix _).subset hb, (of_decide_eq_true this).2⟩
  · rintro ⟨hb, heq⟩
    clear hl
    induction l with
    | nil => simp at hb
    | cons c l ih =>
      obtain ⟨hc, hl⟩ := List.pairwise_cons.mp htail
      -- all entries up to `b` lie between two entries of the same time
      have hac : time a = time c := by
        rcases List.mem_cons.mp hb with rfl | hb
        · exact heq
        · exact le_antisymm (hhead c List.mem_cons_self).1 (heq ▸ (hc b hb).1)
      rw [List.takeWhile_cons_of_pos (by simp [hac, (hhead c List.mem_cons_self).2 hac hp])]
      rcases List.mem_cons.mp hb with rfl | hb
      · exact List.mem_cons_self
      · exact List.mem_cons_of_mem _
          (ih (fun d hd => hhead d (List.mem_cons_of_mem _ hd)) hl hb)

/-- The entries that are found are those of the least time. -/
lemma mem_nextInTime_iff (hl : SortedBy time p l) {b : α} :
    b ∈ nextInTime time p start l ↔ b ∈ l ∧ start ≤ time b ∧ p b = true ∧
      ∀ c ∈ l, start ≤ time c → p c = true → time b ≤ time c := by
  induction l with
  | nil => simp [nextInTime]
  | cons a l ih =>
    obtain ⟨hhead, htail⟩ := List.pairwise_cons.mp hl
    rw [nextInTime]
    split_ifs with ha
    · rw [List.mem_cons, mem_takeWhile_iff ha.2 hl]
      constructor
      · rintro (rfl | ⟨hb, heq⟩)
        · refine ⟨List.mem_cons_self, ha.1, ha.2, ?_⟩
          rintro c (_ | ⟨_, hc⟩) - -
          exacts [le_rfl, (hhead c hc).1]
        · refine ⟨List.mem_cons_of_mem _ hb, heq ▸ ha.1, (hhead b hb).2 heq ha.2, ?_⟩
          rintro c (_ | ⟨_, hc⟩) - -
          exacts [heq.symm.le, heq ▸ (hhead c hc).1]
      · rintro ⟨hb, -, -, hleast⟩
        rcases List.mem_cons.mp hb with rfl | hb
        · exact .inl rfl
        · exact .inr ⟨hb, le_antisymm (hhead b hb).1 (hleast a List.mem_cons_self ha.1 ha.2)⟩
    · rw [ih htail]
      constructor
      · rintro ⟨hb, hstart, hp, hleast⟩
        refine ⟨List.mem_cons_of_mem _ hb, hstart, hp, ?_⟩
        rintro c (_ | ⟨_, hc⟩) hc₁ hc₂
        exacts [absurd ⟨hc₁, hc₂⟩ ha, hleast c hc hc₁ hc₂]
      · rintro ⟨hb, hstart, hp, hleast⟩
        rcases List.mem_cons.mp hb with rfl | hb
        · exact absurd ⟨hstart, hp⟩ ha
        · exact ⟨hb, hstart, hp, fun c hc => hleast c (List.mem_cons_of_mem _ hc)⟩

end InTime

/-! ### Stable sorting -/

section Stable

variable [LinearOrder τ] {key : α → τ} {R : α → α → Prop} {l : List α} {a b : α}

lemma not_sublist_swap (hl : l.Nodup) (h : [a, b].Sublist l) : ¬[b, a].Sublist l := by
  induction l with
  | nil => simp at h
  | cons c l ih =>
    obtain ⟨hc, hl⟩ := List.nodup_cons.mp hl
    intro h'
    rw [List.sublist_cons_iff] at h h'
    rcases h with h | ⟨_, heq, h⟩ <;> rcases h' with h' | ⟨_, heq', h'⟩
    · exact ih hl h h'
    · obtain ⟨rfl, rfl⟩ := List.cons.inj heq'
      exact hc (h.subset (by simp))
    · obtain ⟨rfl, rfl⟩ := List.cons.inj heq
      exact hc (h'.subset (by simp))
    · obtain ⟨rfl, rfl⟩ := List.cons.inj heq
      obtain ⟨rfl, rfl⟩ := List.cons.inj heq'
      exact hc (h.subset (by simp))

/-- Sorting by a key keeps the order of entries with the same key. -/
lemma pairwise_mergeSort_stable (hnodup : l.Nodup) (hl : l.Pairwise R) :
    (l.mergeSort fun a b => key a ≤ key b).Pairwise fun a b =>
      key a < key b ∨ key a = key b ∧ R a b := by
  have htrans : ∀ a b c, decide (key a ≤ key b) = true → decide (key b ≤ key c) = true →
      decide (key a ≤ key c) = true := by
    simpa using fun a b c => le_trans
  have htotal : ∀ a b, (decide (key a ≤ key b) || decide (key b ≤ key a)) = true := by
    simpa using fun a b => le_total (key a) (key b)
  have hperm := l.mergeSort_perm fun a b => decide (key a ≤ key b)
  have hsorted := List.pairwise_mergeSort htrans htotal l
  rw [List.pairwise_iff_forall_sublist]
  intro a b hab
  have hle : key a ≤ key b := by
    simpa using List.pairwise_iff_forall_sublist.mp hsorted hab
  refine hle.lt_or_eq.imp id fun heq => ⟨heq, ?_⟩
  have hne : a ≠ b := by
    rintro rfl
    exact not_sublist_swap (hperm.nodup_iff.mpr hnodup) hab hab
  -- in the other order they would keep the other order
  have hor : [a, b].Sublist l ∨ [b, a].Sublist l := by
    have hpair : l.Pairwise fun x y => [x, y].Sublist l ∨ [y, x].Sublist l :=
      List.pairwise_iff_forall_sublist.mpr .inl
    have : Std.Symm fun x y => [x, y].Sublist l ∨ [y, x].Sublist l := ⟨fun _ _ => Or.symm⟩
    exact hpair.forall (hperm.subset (hab.subset (by simp)))
      (hperm.subset (hab.subset (by simp))) hne
  rcases hor with h | h
  · exact List.pairwise_iff_forall_sublist.mp hl h
  · have hba := List.pair_sublist_mergeSort htrans htotal (by simpa using heq.ge) h
    exact absurd hba (not_sublist_swap (hperm.nodup_iff.mpr hnodup) hab)

end Stable

end ArchExplorer.Lib.Scan
