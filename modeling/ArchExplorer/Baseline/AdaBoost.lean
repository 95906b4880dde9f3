import Mathlib.Data.List.Sort
import ArchExplorer.Lib.Loop
import ArchExplorer.Baseline.Sampling

/-!
# The candidate pools of the AdaBoost baseline

In every iteration a few designs of the pool `P` are labelled, that is simulated and moved to `L`,
and the pool is filled up with new draws. The draws avoid `L` but not `P`.
-/

namespace ArchExplorer.Baseline

open ArchExplorer.Lib ArchExplorer.Design

variable {s : O3CPUDesignSpace} {L P batch draws rest : List ℤ} {N W K i : ℕ}

/-! ### The labelling loop -/

structure Pools where
  P : List ℤ
  L : List ℤ
  solutionSet : List ℤ := []
  simulationCount : ℕ := 0
  deriving DecidableEq, Repr

/-- What the iterations do not compute themselves: the coefficients of variation that the two
regressors give to the designs of the pool, `random.sample(range(W), N)`, and the draws with which
the pool is filled up. -/
structure Rounds where
  cv : ℕ → List ℚ
  top : ℕ → List ℕ
  draws : ℕ → List ℤ

/-- The end of `calc_cv`: the positions, from large to small. -/
def sortedIndex (cv : List ℚ) : List ℕ :=
  (List.range cv.length).insertionSort fun i j => cv.getD j 0 ≤ cv.getD i 0

/-- `P.remove(n)`. -/
def remove (P : List ℤ) (n : ℤ) : Except PyError (List ℤ) :=
  if n ∈ P then .ok (P.erase n) else .error (.valueError "list.remove(x): x not in list")

/-- Simulate a design and move it from `P` to `L`. -/
def labelOne (s : O3CPUDesignSpace) (st : Pools) (n : ℤ) : Except PyError Pools := do
  let _ ← s.idxToEmbedding n
  let P ← remove st.P n
  return ⟨P, st.L ++ [n], st.solutionSet ++ [n], st.simulationCount + 1⟩

/-- The designs that are labelled in an iteration. -/
def chosen (P : List ℤ) (cv : List ℚ) (top : List ℕ) : Except PyError (List ℤ) :=
  top.mapM fun j => do listItem P (← listItem (sortedIndex cv) j)

/-- An iteration up to the replenishment of the pool. -/
def labelled (s : O3CPUDesignSpace) (rounds : Rounds) (i : ℕ) (st : Pools) :
    Except PyError Pools := do
  let _ ← st.P.mapM s.idxToEmbedding
  let temp ← chosen st.P (rounds.cv i) (rounds.top i)
  temp.foldlM (labelOne s) st

/-- An iteration. It is left if there are not enough draws. -/
def labelBody (s : O3CPUDesignSpace) (N : ℕ) (rounds : Rounds) (i : ℕ) (st : Pools) :
    Except PyError (Flow (Option Pools) Pools) := do
  let st ← labelled s rounds i st
  match generatePFromU N st.L (rounds.draws i) with
  | none        => return .leave none
  | some (P, _) => return .next { st with P := st.P ++ P }

/-- The first pool. -/
def startPools (L draws : List ℤ) : Option Pools := do
  let (P, _) ← generatePFromU 64 L draws
  return { P, L }

/-- `main` after the dataset was read. The result is `none` if there are not enough draws. -/
def labelDesigns (s : O3CPUDesignSpace) (K N : ℕ) (rounds : Rounds) (L draws : List ℤ) :
    Except PyError (Option Pools) :=
  match startPools L draws with
  | none    => .ok none
  | some st => Loop.run (labelBody s N rounds) some K 0 st

/-! ### Labelling -/

/-- Distinct elements are paired with distinct elements if no element has two partners. -/
lemma nodup_of_forall₂ {α β : Type} {R : α → β → Prop} {l : List α} {l' : List β}
    (h : List.Forall₂ R l l') (hR : ∀ a b c, R a c → R b c → a = b) (hnodup : l.Nodup) :
    l'.Nodup := by
  induction h with
  | nil => exact .nil
  | @cons a b l l' hab hl ih =>
    obtain ⟨ha, hnodup⟩ := List.nodup_cons.mp hnodup
    refine List.nodup_cons.mpr ⟨fun hb => ha ?_, ih hnodup⟩
    -- the partner of the second occurrence
    obtain ⟨k, hk, rfl⟩ := List.mem_iff_getElem.mp hb
    have hpair := (List.forall₂_iff_get.mp hl).2 k (hl.length_eq ▸ hk) hk
    rw [hR a _ _ hab hpair]
    exact List.getElem_mem _

lemma sortedIndex_nodup (cv : List ℚ) : (sortedIndex cv).Nodup :=
  (List.perm_insertionSort _ _).nodup_iff.mpr List.nodup_range

lemma listItem_eq_ok {α : Type} {l : List α} {k : ℕ} {a : α} :
    listItem l k = .ok a ↔ l[k]? = some a := by
  unfold listItem
  cases l[k]? <;> simp

/-- The designs that are labelled are different designs of the pool. -/
lemma chosen_spec {cv : List ℚ} {top : List ℕ} {temp : List ℤ} (h : chosen P cv top = .ok temp)
    (hP : P.Nodup) (htop : top.Nodup) : temp.Nodup ∧ temp ⊆ P ∧ temp.length = top.length := by
  have hpairs := forall₂_of_mapM_eq_ok h
  have hspec (j : ℕ) (n : ℤ) (hj : (do listItem P (← listItem (sortedIndex cv) j)) = .ok n) :
      ∃ p, (sortedIndex cv)[j]? = some p ∧ P[p]? = some n := by
    obtain ⟨p, hp, hn⟩ := bind_eq_ok hj
    exact ⟨p, listItem_eq_ok.mp hp, listItem_eq_ok.mp hn⟩
  refine ⟨nodup_of_forall₂ hpairs (fun j j' n hj hj' => ?_) htop, ?_, hpairs.length_eq.symm⟩
  · obtain ⟨p, hp, hn⟩ := hspec j n hj
    obtain ⟨p', hp', hn'⟩ := hspec j' n hj'
    obtain ⟨hlt, -⟩ := List.getElem?_eq_some_iff.mp hn
    obtain rfl := (List.getElem?_inj hlt hP).mp (hn.trans hn'.symm)
    obtain ⟨hlt, -⟩ := List.getElem?_eq_some_iff.mp hp
    exact (List.getElem?_inj hlt (sortedIndex_nodup cv)).mp (hp.trans hp'.symm)
  · intro n hn
    obtain ⟨k, hk, rfl⟩ := List.mem_iff_getElem.mp hn
    have hpair := (List.forall₂_iff_get.mp hpairs).2 k (hpairs.length_eq ▸ hk) hk
    obtain ⟨p, -, hp⟩ := hspec _ _ hpair
    exact List.mem_of_getElem? hp

/-- Labelling moves the designs from `P` to `L`. -/
lemma foldlM_labelOne {temp : List ℤ} {st st' : Pools}
    (h : temp.foldlM (labelOne s) st = .ok st') :
    st'.P = st.P.diff temp ∧ st'.P.length + temp.length = st.P.length ∧
      st'.L = st.L ++ temp ∧ st'.solutionSet = st.solutionSet ++ temp ∧
      st'.simulationCount = st.simulationCount + temp.length := by
  induction temp generalizing st with
  | nil =>
    cases h
    simp
  | cons n temp ih =>
    rw [List.foldlM_cons] at h
    obtain ⟨st₁, hone, h⟩ := bind_eq_ok h
    obtain ⟨_, -, hone⟩ := bind_eq_ok hone
    obtain ⟨P, hP, hone⟩ := bind_eq_ok hone
    rw [remove] at hP
    split_ifs at hP with hmem
    cases hP
    cases hone
    obtain ⟨hP, hcount, hL, hsol, hsim⟩ := ih h
    have hlen := List.length_erase_add_one hmem
    dsimp only at hP hcount hL hsol hsim
    refine ⟨by rw [hP, List.diff_cons], ?_, by simp [hL], by simp [hsol], ?_⟩
    · rw [List.length_cons]
      omega
    · rw [hsim, List.length_cons]
      omega

/-! ### The invariant -/

/-- The pool holds 64 different designs, none of which is labelled, and no design was labelled
twice. -/
structure Clean (st : Pools) : Prop where
  length_eq : st.P.length = 64
  nodup : st.P.Nodup
  unlabelled : ∀ idx ∈ st.P, idx ∉ st.L
  labelled : st.L.Nodup

/-- What an iteration leaves before the pool is filled up. -/
lemma Clean.labelled_spec {rounds : Rounds} {st st₁ : Pools} (h : Clean st)
    (htop : (rounds.top i).Nodup) (hrun : Baseline.labelled s rounds i st = .ok st₁) :
    (st₁.P.length + (rounds.top i).length = 64 ∧ st₁.P ⊆ st.P) ∧ st₁.P.Nodup ∧
      (∀ idx ∈ st₁.P, idx ∉ st₁.L) ∧ st₁.L.Nodup ∧ ∀ idx ∈ st.P, idx ∈ st₁.P ∨ idx ∈ st₁.L := by
  obtain ⟨_, -, hrun⟩ := bind_eq_ok hrun
  obtain ⟨temp, htemp, hrun⟩ := bind_eq_ok hrun
  obtain ⟨hnodup, hsub, hlen⟩ := chosen_spec htemp h.nodup htop
  obtain ⟨hP, hcount, hL, -, -⟩ := foldlM_labelOne hrun
  have hmem (idx : ℤ) : idx ∈ st₁.P ↔ idx ∈ st.P ∧ idx ∉ temp := by
    rw [hP, h.nodup.mem_sdiff_iff]
  refine ⟨⟨by rw [← hlen, hcount, h.length_eq], fun idx hidx => ((hmem idx).mp hidx).1⟩,
    hP ▸ h.nodup.diff, ?_, ?_, ?_⟩
  · intro idx hidx
    obtain ⟨hold, hkept⟩ := (hmem idx).mp hidx
    rw [hL, List.mem_append, not_or]
    exact ⟨h.unlabelled idx hold, hkept⟩
  · rw [hL]
    refine h.labelled.append hnodup fun idx hidx htmp => ?_
    exact h.unlabelled idx (hsub htmp) hidx
  · intro idx hidx
    rw [hmem, hL, List.mem_append]
    tauto

lemma labelBody_eq_next {rounds : Rounds} {st st' : Pools}
    (h : labelBody s N rounds i st = .ok (.next st')) :
    ∃ st₁ batch rest, labelled s rounds i st = .ok st₁ ∧
      generatePFromU N st₁.L (rounds.draws i) = some (batch, rest) ∧
      st' = { st₁ with P := st₁.P ++ batch } := by
  obtain ⟨st₁, hst₁, h⟩ := bind_eq_ok h
  cases hgen : generatePFromU N st₁.L (rounds.draws i) with
  | none =>
    rw [hgen] at h
    cases h
  | some p =>
    obtain ⟨batch, rest⟩ := p
    rw [hgen] at h
    cases h
    exact ⟨st₁, batch, rest, hst₁, hgen, rfl⟩

/-- With `L` labelled, the draws that fill up the pool `P` are different designs outside of it. -/
def NewTo (N : ℕ) (P L draws : List ℤ) : Prop :=
  (accepted N L draws).Nodup ∧ ∀ idx ∈ accepted N L draws, idx ∉ P

/-- One iteration: the pool is clean again exactly if the draws are new to it. -/
lemma Clean.next_iff {rounds : Rounds} {st st' : Pools} (h : Clean st)
    (htop : (rounds.top i).Nodup) (hlen : (rounds.top i).length = N)
    (hnext : labelBody s N rounds i st = .ok (.next st')) :
    st'.L.Nodup ∧ (Clean st' ↔ NewTo N st.P st'.L (rounds.draws i)) := by
  obtain ⟨st₁, batch, rest, hst₁, hgen, rfl⟩ := labelBody_eq_next hnext
  obtain ⟨hcount, hnodup, hout, hL, hpool⟩ := h.labelled_spec htop hst₁
  obtain ⟨hsize, hmem, -⟩ := generatePFromU_spec hgen
  obtain rfl := generatePFromU_eq_accepted hgen
  refine ⟨hL, fun hclean => ?_, fun ⟨hbatch, hdisj⟩ => ?_⟩
  · obtain ⟨-, hbatch, hdisj⟩ := List.nodup_append.mp hclean.nodup
    refine ⟨hbatch, fun idx hidx hP => ?_⟩
    -- what left the pool is labelled, and draws are not
    exact hdisj idx ((hpool idx hP).resolve_right (hmem idx hidx).2) idx hidx rfl
  · refine ⟨?_, List.nodup_append.mpr ⟨hnodup, hbatch, ?_⟩, ?_, hL⟩
    · rw [List.length_append, hsize, ← hlen]
      exact hcount.1
    · rintro idx hidx _ hb rfl
      exact hdisj idx hb (hcount.2 hidx)
    · intro idx hidx
      rcases List.mem_append.mp hidx with hidx | hidx
      · exact hout idx hidx
      · exact (hmem idx hidx).2

/-! ### Runs -/

/-- The property over a run of `K` iterations. -/
structure StaysClean (s : O3CPUDesignSpace) (K N : ℕ) (rounds : Rounds) (st₀ : Pools) : Prop where
  clean : ∀ i < K, ∀ st, Loop.Visits (labelBody s N rounds) st₀ i st → Clean st
  once : ∀ i ≤ K, ∀ st, Loop.Visits (labelBody s N rounds) st₀ i st → st.L.Nodup

/-- The condition on the draws over a run of `K` iterations from the labelled designs `L`: the 64
accepted draws of the first pool are different designs, and what is accepted at the end of an
iteration, with which another one begins, is new to the pool. -/
structure DrawsAreNew (s : O3CPUDesignSpace) (K N : ℕ) (rounds : Rounds) (L draws : List ℤ)
    (st₀ : Pools) : Prop where
  first : 0 < K → (accepted 64 L draws).Nodup
  later : ∀ i, i + 1 < K → ∀ st st', Loop.Visits (labelBody s N rounds) st₀ i st →
    labelBody s N rounds i st = .ok (.next st') → NewTo N st.P st'.L (rounds.draws i)

lemma startPools_eq_some {st₀ : Pools} (h : startPools L draws = some st₀) :
    st₀ = { P := accepted 64 L draws, L } ∧ st₀.P.length = 64 ∧ ∀ idx ∈ st₀.P, idx ∉ L := by
  simp only [startPools, Option.bind_eq_bind, Option.bind_eq_some_iff] at h
  obtain ⟨⟨P, rest⟩, hgen, h⟩ := h
  cases h
  obtain ⟨hlen, hmem, -⟩ := generatePFromU_spec hgen
  obtain rfl := generatePFromU_eq_accepted hgen
  exact ⟨rfl, hlen, fun idx hidx => (hmem idx hidx).2⟩

lemma startPools_clean_iff {st₀ : Pools} (hL : L.Nodup) (h : startPools L draws = some st₀) :
    Clean st₀ ↔ (accepted 64 L draws).Nodup := by
  obtain ⟨rfl, hlen, hout⟩ := startPools_eq_some h
  exact ⟨Clean.nodup, fun hnodup => ⟨hlen, hnodup, hout, hL⟩⟩

/-- Let the labelled designs be different ones. In every iteration of every run the pool holds 64
different designs that are not labelled, and no design is labelled twice, exactly if no draw finds a
design that is in the pool already. -/
theorem pools_stayClean_iff (s : O3CPUDesignSpace) (K N W : ℕ) (rounds : Rounds) (L draws : List ℤ)
    (hL : L.Nodup) (htop : ∀ i < K, Drawn W N ((rounds.top i).map Int.ofNat)) (st₀ : Pools)
    (hstart : startPools L draws = some st₀) :
    StaysClean s K N rounds st₀ ↔ DrawsAreNew s K N rounds L draws st₀ := by
  have hclean₀ := startPools_clean_iff hL hstart
  have hnodup (i : ℕ) (hi : i < K) : (rounds.top i).Nodup := (htop i hi).nodup.of_map
  have hlen (i : ℕ) (hi : i < K) : (rounds.top i).length = N := by
    rw [← (htop i hi).length_eq, List.length_map]
  constructor
  · intro h
    refine ⟨fun hK => hclean₀.mp (h.clean 0 hK st₀ .start), fun i hi st st' hst hnext => ?_⟩
    have hc := h.clean i (by omega) st hst
    exact ((hc.next_iff (hnodup i (by omega)) (hlen i (by omega)) hnext).2).mp
      (h.clean (i + 1) hi st' (hst.next hnext))
  · intro h
    have hclean (i : ℕ) (hi : i < K) (st : Pools)
        (hst : Loop.Visits (labelBody s N rounds) st₀ i st) : Clean st := by
      induction hst with
      | start => exact hclean₀.mpr (h.first hi)
      | @next i st st' hst hnext ih =>
        exact (((ih (by omega)).next_iff (hnodup i (by omega)) (hlen i (by omega)) hnext).2).mpr
          (h.later i hi st st' hst hnext)
    refine ⟨hclean, fun i hi st hst => ?_⟩
    cases hst with
    | start =>
      obtain ⟨rfl, -, -⟩ := startPools_eq_some hstart
      exact hL
    | @next i st st' hst hnext =>
      exact ((hclean i (by omega) st hst).next_iff (hnodup i (by omega)) (hlen i (by omega))
        hnext).1

/-- Nine candidates of one component and eight of another one. -/
def seventyTwoDesigns : O3CPUDesignSpace where
  descriptions := ⟨[("o3cpu", ⟨[("ROB", [1, 2, 3, 4, 5, 6, 7, 8, 9]),
    ("RF", [1, 2, 3, 4, 5, 6, 7, 8])], by decide⟩)], by decide⟩
  componentsMappings := ⟨[("ROB", ⟨["numROBEntries"], ⟨[(1, [32]), (2, [48]), (3, [64]), (4, [80]),
      (5, [96]), (6, [112]), (7, [128]), (8, [144]), (9, [160])], by decide⟩⟩),
    ("RF", ⟨["numPhysIntRegs"], ⟨[(1, [40]), (2, [48]), (3, [56]), (4, [64]), (5, [72]), (6, [80]),
      (7, [88]), (8, [96])], by decide⟩⟩)], by decide⟩
  size := 72
  nonempty := by decide
  size_eq := by decide

/-- The first 64 designs. -/
def firstDesigns : List ℤ := (List.range 64).map fun k : ℕ => (k : ℤ) + 1

lemma firstDesigns_nodup : firstDesigns.Nodup := by
  refine List.Nodup.map (fun j k hjk => ?_) List.nodup_range
  simpa using hjk

lemma startPools_firstDesigns :
    startPools [] firstDesigns = some { P := firstDesigns, L := [] } := by
  have hgen := generatePFromU_of_disjoint (P := firstDesigns) (L := []) (by simp) []
  rw [List.append_nil] at hgen
  exact congrArg (Option.map fun p => ({ P := p.1, L := [] } : Pools)) hgen

/-- The first design of the pool is labelled, and the draws of the first iteration are that design
and a new one. -/
def oneByOne : Rounds := ⟨fun _ => List.replicate 64 0, fun _ => [0], fun _ => [1, 65]⟩

lemma labelBody_oneByOne :
    labelBody seventyTwoDesigns 1 oneByOne 0 { P := firstDesigns, L := [] } =
      .ok (.next ⟨firstDesigns.tail ++ [65], [1], [1], 1⟩) := by
  decide +kernel

/-- Of two iterations the first one fills up the pool: its draw of the labelled design is rejected,
and the other one is new to the pool. -/
theorem pools_stayClean_iff_refill :
    startPools [] firstDesigns = some { P := firstDesigns, L := [] } ∧
      labelBody seventyTwoDesigns 1 oneByOne 0 { P := firstDesigns, L := [] } =
        .ok (.next ⟨firstDesigns.tail ++ [65], [1], [1], 1⟩) ∧
      StaysClean seventyTwoDesigns 2 1 oneByOne { P := firstDesigns, L := [] } := by
  refine ⟨startPools_firstDesigns, labelBody_oneByOne, ?_⟩
  refine (pools_stayClean_iff _ 2 1 64 _ [] firstDesigns .nil (fun _ _ => ⟨rfl, ?_, ?_⟩) _
    startPools_firstDesigns).mpr ⟨fun _ => firstDesigns_nodup, fun i hi st st' hst hnext => ?_⟩
  · exact List.nodup_singleton _
  · simp [oneByOne]
  · obtain rfl : i = 0 := by omega
    cases hst
    cases labelBody_oneByOne.symm.trans hnext
    exact ⟨List.nodup_singleton 65, by decide⟩

/-! ### The whole labelling -/

/-- What is labelled in `i` iterations of `N` simulations each. -/
structure Spent (L : List ℤ) (N i : ℕ) (st : Pools) : Prop where
  labelled : st.L = L ++ st.solutionSet
  length_eq : st.solutionSet.length = i * N
  count_eq : st.simulationCount = i * N

lemma Spent.next {rounds : Rounds} {st st' : Pools} (h : Spent L N i st)
    (hlen : (rounds.top i).length = N) (hnext : labelBody s N rounds i st = .ok (.next st')) :
    Spent L N (i + 1) st' := by
  obtain ⟨st₁, batch, rest, hst₁, -, rfl⟩ := labelBody_eq_next hnext
  obtain ⟨_, -, hst₁⟩ := bind_eq_ok hst₁
  obtain ⟨temp, htemp, hst₁⟩ := bind_eq_ok hst₁
  obtain ⟨-, -, hL, hsol, hsim⟩ := foldlM_labelOne hst₁
  have htmp : temp.length = N := by rw [← hlen, (forall₂_of_mapM_eq_ok htemp).length_eq]
  refine ⟨?_, ?_, ?_⟩
  · rw [hL, hsol, h.labelled, List.append_assoc]
  · rw [hsol, List.length_append, h.length_eq, htmp, Nat.succ_mul]
  · rw [hsim, h.count_eq, htmp, Nat.succ_mul]

/-- A run that returns has spent `K * N` simulations. They are spent on different designs, none of
which had a label, if the draws are new to the pools. -/
theorem labelDesigns_spent {rounds : Rounds} {st₀ st : Pools}
    (htop : ∀ i < K, Drawn W N ((rounds.top i).map Int.ofNat))
    (hstart : startPools L draws = some st₀)
    (hrun : labelDesigns s K N rounds L draws = .ok (some st)) :
    Spent L N K st ∧ (StaysClean s K N rounds st₀ → (L ++ st.solutionSet).Nodup) := by
  rw [labelDesigns, hstart] at hrun
  rcases Loop.of_run_eq_ok hrun with ⟨st', hst, heq⟩ | ⟨i, st', -, -, hleave⟩
  · cases heq
    have hspent (i : ℕ) (hi : i ≤ K) (st : Pools)
        (hst : Loop.Visits (labelBody s N rounds) st₀ i st) : Spent L N i st := by
      induction hst with
      | start =>
        obtain ⟨rfl, -, -⟩ := startPools_eq_some hstart
        exact ⟨(List.append_nil L).symm, (Nat.zero_mul N).symm, (Nat.zero_mul N).symm⟩
      | @next i st st' hst hnext ih =>
        refine (ih (by omega)).next ?_ hnext
        rw [← (htop i (by omega)).length_eq, List.length_map]
    have hK := hspent K le_rfl st hst
    exact ⟨hK, fun h => hK.labelled ▸ h.once K le_rfl st hst⟩
  · -- the loop is left only without a result
    obtain ⟨st₁, -, hleave⟩ := bind_eq_ok hleave
    split at hleave <;> cases hleave

/-- If every draw is 1, then the design with this index is in the pool 64 times, and two of the
first iteration's simulations are spent on it. -/
theorem pool_repeats :
    ∃ st₀ st, startPools [] (List.replicate 64 1) = some st₀ ∧ ¬st₀.P.Nodup ∧
      (∀ idx ∈ List.replicate 64 1, Drawn O3CPUDesignSpace.twoComponents.size 1 [idx]) ∧
      labelBody .twoComponents 2 ⟨fun _ => List.replicate 64 0, fun _ => [0, 1], fun _ => [0, 0]⟩ 0
        st₀ = .ok (.next st) ∧ st.L = [1, 1] ∧ st.solutionSet = [1, 1] ∧
      st.simulationCount = 2 := by
  refine ⟨⟨List.replicate 64 1, [], [], 0⟩, ⟨List.replicate 62 1 ++ [0, 0], [1, 1], [1, 1], 2⟩,
    by decide +kernel, by decide, fun idx hidx => ?_, by decide +kernel, rfl, rfl, rfl⟩
  rw [List.eq_of_mem_replicate hidx]
  exact ⟨rfl, List.nodup_singleton 1, by decide⟩

end ArchExplorer.Baseline
