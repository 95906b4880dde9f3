import Mathlib.Data.List.Sort
import ArchExplorer.Design.Encoding
import ArchExplorer.Baseline.ArchRanker

/-!
# The ranking of ArchRanker

Inserting a design before the first one that it is not ranked above is an insertion in the order of
the predictor, whatever this order is. The ranking therefore is a permutation of the designs, and it
is sorted if the predictor compares keys.
-/

namespace ArchExplorer.Baseline

open ArchExplorer.Lib ArchExplorer.Design

variable {predictProba : List ℤ → ℚ} {designs : List (List ℤ)} {i : ℕ}

section Order

variable (predictProba designs)

/-- The predictor puts `i` before `j`. -/
def Before (i j : ℕ) : Prop := predictProba (feature designs i j) ≤ 1 / 2

instance : DecidableRel (Before predictProba designs) := fun i j =>
  inferInstanceAs (Decidable (predictProba (feature designs i j) ≤ 1 / 2))

end Order

/-! ### Insertions -/

lemma insertIdx_length_append (pre rest : List ℕ) :
    (pre ++ rest).insertIdx pre.length i = pre ++ i :: rest := by
  induction pre with
  | nil => rfl
  | cons j pre ih => rw [List.cons_append, List.length_cons, List.insertIdx_succ_cons, ih]; rfl

lemma insertBefore_cons (j : ℕ) (rankList rest : List ℕ) :
    insertBefore predictProba designs i rankList (j :: rest) =
      if Before predictProba designs i j then rankList.insertIdx (rankList.idxOf j) i
      else insertBefore predictProba designs i rankList rest := rfl

/-- The position of the first design that is not put before `i` is found by value. -/
lemma insertBefore_append (pre rest : List ℕ) (hnodup : (pre ++ rest).Nodup) :
    insertBefore predictProba designs i (pre ++ rest) rest =
      if ∃ j ∈ rest, Before predictProba designs i j then
        pre ++ rest.orderedInsert (Before predictProba designs) i
      else pre ++ rest := by
  induction rest generalizing pre with
  | nil => simp [insertBefore]
  | cons j rest ih =>
    have hj : j ∉ pre := fun hmem =>
      (List.nodup_append.mp hnodup).2.2 j hmem j List.mem_cons_self rfl
    by_cases hbefore : Before predictProba designs i j
    · have hidx : (pre ++ j :: rest).idxOf j = pre.length := by
        rw [List.idxOf_append_of_notMem hj, List.idxOf_cons_self, Nat.add_zero]
      rw [insertBefore_cons, if_pos hbefore, hidx, insertIdx_length_append,
        if_pos ⟨j, by simp, hbefore⟩, List.orderedInsert_cons, if_pos hbefore]
    · have happend : pre ++ j :: rest = (pre ++ [j]) ++ rest := by simp
      rw [insertBefore_cons, if_neg hbefore, List.orderedInsert_cons, if_neg hbefore, happend,
        ih (pre ++ [j]) (happend ▸ hnodup)]
      simp [hbefore]

/-- A design that goes before no other one goes to the end. -/
lemma orderedInsert_eq_append {l : List ℕ}
    (h : ∀ j ∈ l, ¬Before predictProba designs i j) :
    l.orderedInsert (Before predictProba designs) i = l ++ [i] := by
  induction l with
  | nil => rfl
  | cons j l ih =>
    obtain ⟨hj, hl⟩ := List.forall_mem_cons.mp h
    rw [List.orderedInsert_cons, if_neg hj, ih hl, List.cons_append]

lemma rankStep_eq {rankList : List ℕ} (hnodup : rankList.Nodup) (i : ℕ) :
    rankStep predictProba designs rankList i =
      rankList.orderedInsert (Before predictProba designs) i := by
  have hins : insertBefore predictProba designs i rankList rankList = _ :=
    insertBefore_append [] rankList hnodup
  rw [List.nil_append, List.nil_append] at hins
  cases rankList with
  | nil => rfl
  | cons j rankList =>
    rw [rankStep, if_neg (by simp)]
    dsimp only
    rw [hins]
    split_ifs with hex hlen hlen
    · rw [List.orderedInsert_length] at hlen
      omega
    · rfl
    · refine (orderedInsert_eq_append fun k hk hb => hex ⟨k, hk, hb⟩).symm
    · exact absurd rfl hlen

/-! ### The whole ranking -/

variable (predictProba designs) in
/-- The ranking of the first designs. -/
def ranked (n : ℕ) : List ℕ := (List.range n).foldl (rankStep predictProba designs) []

lemma ranked_perm (n : ℕ) : (ranked predictProba designs n).Perm (List.range n) := by
  induction n with
  | zero => rfl
  | succ n ih =>
    have hnodup : (ranked predictProba designs n).Nodup := ih.nodup_iff.mpr List.nodup_range
    rw [ranked, List.range_succ, List.foldl_append]
    calc rankStep predictProba designs (ranked predictProba designs n) n
        = (ranked predictProba designs n).orderedInsert (Before predictProba designs) n :=
          rankStep_eq hnodup n
      _ |>.Perm (n :: ranked predictProba designs n) := List.perm_orderedInsert _ _ _
      _ |>.Perm (n :: List.range n) := ih.cons n
      _ |>.Perm (List.range n ++ [n]) := (List.perm_append_singleton n _).symm

lemma ranked_succ (n : ℕ) : ranked predictProba designs (n + 1) =
    (ranked predictProba designs n).orderedInsert (Before predictProba designs) n := by
  have hnodup : (ranked predictProba designs n).Nodup :=
    (ranked_perm n).nodup_iff.mpr List.nodup_range
  rw [ranked, List.range_succ, List.foldl_append]
  exact rankStep_eq hnodup n

/-- Insertion only asks for the order of the new design and the ones that are there. -/
lemma orderedInsert_congr {r q : ℕ → ℕ → Prop} [DecidableRel r] [DecidableRel q] {l : List ℕ}
    (h : ∀ j ∈ l, r i j ↔ q i j) : l.orderedInsert r i = l.orderedInsert q i := by
  induction l with
  | nil => rfl
  | cons j l ih =>
    obtain ⟨hj, hl⟩ := List.forall_mem_cons.mp h
    rw [List.orderedInsert_cons, List.orderedInsert_cons, ih hl]
    simp only [hj]

section Key

variable {κ : Type} [LinearOrder κ] {key : ℕ → κ}

lemma ranked_sorted {m : ℕ}
    (hkey : ∀ i < m, ∀ j < m, Before predictProba designs i j ↔ key i ≤ key j) (n : ℕ)
    (hn : n ≤ m) : (ranked predictProba designs n).Pairwise fun i j => key i ≤ key j := by
  have : Std.Total fun i j : ℕ => key i ≤ key j := ⟨fun i j => le_total (key i) (key j)⟩
  have : IsTrans ℕ fun i j => key i ≤ key j := ⟨fun _ _ _ => le_trans⟩
  induction n with
  | zero => exact .nil
  | succ n ih =>
    have hcongr : ∀ j ∈ ranked predictProba designs n,
        Before predictProba designs n j ↔ key n ≤ key j := by
      intro j hj
      have hlt := List.mem_range.mp ((ranked_perm n).mem_iff.mp hj)
      exact hkey n (by omega) j (by omega)
    rw [ranked_succ, orderedInsert_congr (q := fun i j => key i ≤ key j) hcongr]
    exact (ih (by omega)).orderedInsert n

end Key

lemma constructRankList_perm (predictProba : List ℤ → ℚ) (designs : List (List ℤ)) :
    (constructRankList predictProba designs).Perm (List.range designs.length) :=
  ranked_perm designs.length

lemma pruneDesignSpace_rows (env : Ranker) (predictProba : List ℤ → ℚ) (fuel : ℕ)
    (metric : Metric) (designs : List (List ℤ)) :
    pruneDesignSpace env predictProba fuel metric (.rows designs) =
      search env designs fuel (constructRankList predictProba designs) metric := by
  have hlen : (constructRankList predictProba designs).length = designs.length := by
    rw [(constructRankList_perm predictProba designs).length_eq, List.length_range]
  rw [pruneDesignSpace, if_pos hlen]

/-- For any number of designs and any predictor the ranking is a permutation of all designs, so that
the assertion on its length holds and the search gets it. A predictor that compares keys sorts
them. -/
theorem constructRankList_sorts (env : Ranker) (predictProba : List ℤ → ℚ)
    (designs : List (List ℤ)) :
    (constructRankList predictProba designs).Perm (List.range designs.length) ∧
      (∀ fuel metric, pruneDesignSpace env predictProba fuel metric (.rows designs) =
        search env designs fuel (constructRankList predictProba designs) metric) ∧
      ∀ (κ : Type) [LinearOrder κ] (key : ℕ → κ),
        (∀ i < designs.length, ∀ j < designs.length,
          predictProba (feature designs i j) ≤ 1 / 2 ↔ key i ≤ key j) →
        (constructRankList predictProba designs).Pairwise fun i j => key i ≤ key j := by
  exact ⟨constructRankList_perm predictProba designs,
    fun fuel metric => pruneDesignSpace_rows env predictProba fuel metric designs,
    fun κ _ key hkey => ranked_sorted hkey _ le_rfl⟩

/-- A predictor that compares the sums of the parameters. -/
def compareSums (feature : List ℤ) : ℚ := if feature.sum ≤ 0 then 0 else 1

lemma compareSums_le_iff (feature : List ℤ) : compareSums feature ≤ 1 / 2 ↔ feature.sum ≤ 0 := by
  unfold compareSums
  split_ifs with h <;> norm_num [h]

/-- The thresholds of `main` in a space of two components. -/
def plainRanker : Ranker where
  space := .twoComponents
  results := fun idx => ⟨idx, 1 / idx, idx, idx⟩
  threshold
    | .perf  => 3 / 4
    | .power => 1 / 2
    | .area  => 11 / 2

theorem constructRankList_sorts_three :
    (constructRankList compareSums [[4, 2], [1, 1], [2, 3]]).Perm (List.range 3) ∧
      (constructRankList compareSums [[4, 2], [1, 1], [2, 3]]).Pairwise fun i j =>
        ([6, 2, 5] : List ℤ).getD i 0 ≤ ([6, 2, 5] : List ℤ).getD j 0 := by
  obtain ⟨hperm, -, hsorted⟩ :=
    constructRankList_sorts plainRanker compareSums [[4, 2], [1, 1], [2, 3]]
  refine ⟨hperm, hsorted ℤ (fun i => [6, 2, 5].getD i 0) ?_⟩
  simp only [compareSums_le_iff]
  decide

end ArchExplorer.Baseline
