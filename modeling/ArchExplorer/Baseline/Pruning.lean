import ArchExplorer.Lib.Cut
import ArchExplorer.Baseline.Ranking

/-!
# The searches of ArchRanker

Each search moves one of its bounds only and keeps what lies on the good side of the first probe
that meets the threshold. It can therefore only keep certain numbers of designs, which are obtained
by halving the length of the list.
-/

namespace ArchExplorer.Baseline

open ArchExplorer.Lib ArchExplorer.Design ArchExplorer.Explorer

variable {env : Ranker} {designs : List (List ℤ)} {rankList : List ℕ} {metric : Metric}
  {i fuel : ℕ} {st : Counters}

/-! ### Simulated designs -/

variable (env designs) in
/-- The designs of the ranking can be simulated. -/
def Measured (rankList : List ℕ) : Prop :=
  ∀ i ∈ rankList, ∃ p, measure env designs i = .ok p

variable (env designs) in
/-- The metric of a design as it is simulated. -/
def simulated (metric : Metric) (i : ℕ) : ℚ :=
  match measure env designs i with
  | .ok (_, results) => metric.value results
  | .error _         => 0

lemma rankAt_run {mid : ℕ} (h : rankList[mid]? = some i) (st : Counters) :
    (rankAt rankList mid).run st = (.ok i, st) := by
  simp [rankAt, listItem, h, Except.mapError]

variable (env) in
/-- The counters of a run that has simulated some of the given designs only. -/
structure Logged (rows : List (List ℤ)) (st : Counters) : Prop where
  count : st.simulationCount = st.exploredSet.length
  explored : ∀ idx ∈ st.exploredSet, ∃ row ∈ rows, env.space.embeddingToIdx row = .ok idx

variable (env designs) in
/-- Between the two states only designs of the array are simulated. -/
def Logs (st st' : Counters) : Prop :=
  ∀ rows, designs ⊆ rows → Logged env rows st → Logged env rows st'

lemma Logs.refl : Logs env designs st st := fun _ _ h => h

lemma Logs.trans {st₁ st₂ st₃ : Counters} (h : Logs env designs st₁ st₂)
    (h' : Logs env designs st₂ st₃) : Logs env designs st₁ st₃ :=
  fun rows hsub hlogged => h' rows hsub (h rows hsub hlogged)

lemma mem_of_measure {p : ℤ × Results} (h : measure env designs i = .ok p) :
    ∃ row ∈ designs, env.space.embeddingToIdx row = .ok p.1 := by
  obtain ⟨row, hrow, h⟩ := bind_eq_ok h
  obtain ⟨idx, hidx, h⟩ := bind_eq_ok h
  cases h
  unfold arrayItem at hrow
  split at hrow
  next heq =>
    cases hrow
    exact ⟨row, List.mem_of_getElem? heq, hidx⟩
  next => cases hrow

lemma Measured.simulateDesign (hm : Measured env designs rankList) (hi : i ∈ rankList)
    (st : Counters) :
    ∃ results st', (simulateDesign env designs i).run st = (.ok results, st') ∧
      (∀ metric, simulated env designs metric i = metric.value results) ∧
      Logs env designs st st' := by
  obtain ⟨⟨idx, results⟩, hp⟩ := hm i hi
  refine ⟨results, ⟨st.simulationCount + 1, st.exploredSet ++ [idx]⟩, ?_, fun metric => ?_, ?_⟩
  · simp [Baseline.simulateDesign, Exec.run_bind, hp, Except.mapError]
  · simp [simulated, hp]
  · rintro rows hsub ⟨hcount, hexplored⟩
    refine ⟨by simp [hcount], fun idx' hidx' => ?_⟩
    rcases List.mem_append.mp hidx' with hidx' | hidx'
    · exact hexplored idx' hidx'
    · obtain ⟨row, hrow, hidx⟩ := mem_of_measure hp
      exact ⟨row, hsub hrow, List.mem_singleton.mp hidx' ▸ hidx⟩

variable (env designs) in
/-- A search ends with a selection of the designs `kept`. -/
structure Ends (x : RankM Selection) (st : Counters) (kept : List ℕ) (selection : Selection)
    (st' : Counters) : Prop where
  run_eq : x.run st = (.ok selection, st')
  designs_eq : selection.designs = kept
  ne_none : selection ≠ .none
  logs : Logs env designs st st'

lemma ends_one {x : RankM ℕ} {kept : List ℕ} (hx : x.run st = (.ok i, st)) (h : [i] = kept) :
    Ends env designs (do return .one (← x)) st kept (.one i) st where
  run_eq := by
    rw [Exec.run_bind_ok hx]
    rfl
  designs_eq := h
  ne_none := by simp
  logs := .refl

/-! ### Power and area -/

/-- With `h` candidates left the search keeps as many designs as one of the halves of `h + 1`. If
the first `k` designs meet the threshold, then it keeps them exactly if `k` is one of the halves. -/
lemma powerAndAreaLoop_ends (metric : Metric) {h : ℕ} (hm : Measured env designs rankList)
    (hpos : 0 < h) (hle : h ≤ rankList.length) (hfuel : h ≤ fuel) (st : Counters) :
    ∃ selection st' n,
      Ends env designs (powerAndAreaLoop env designs rankList metric fuel (h - 1)) st
        (rankList.take n) selection st' ∧ 0 < n ∧ n ≤ rankList.length ∧
      ∀ k, (∀ i j, rankList[i]? = some j →
          (simulated env designs metric j ≤ env.threshold metric ↔ i < k)) →
        (n = k ↔ ∃ j, k = (h + 1) / 2 ^ (j + 1) ∧ 0 < k) := by
  induction fuel generalizing h st with
  | zero => omega
  | succ fuel ih =>
    have hhalf (j : ℕ) := div_two_pow_succ_le (h + 1) j
    obtain ⟨mid, hmid⟩ : ∃ mid : ℕ, mid = (h - 1) / 2 := ⟨_, rfl⟩
    have hmid' : ((h : ℤ) - 1 + 0) / 2 = mid := by omega
    have hkept : (h + 1) / 2 = mid + 1 := by omega
    obtain ⟨i, hi⟩ : ∃ i, rankList[mid]? = some i :=
      ⟨_, List.getElem?_eq_getElem (by omega)⟩
    rw [powerAndAreaLoop, if_pos (by omega)]
    simp only [hmid', Nat.cast_eq_zero]
    split_ifs with hzero
    · -- the first design is kept without a simulation
      refine ⟨.one i, st, 1, ends_one (rankAt_run hi st) ?_, by omega, by omega, fun k _ => ?_⟩
      · rw [hzero] at hi
        rw [List.take_one, List.head?_eq_getElem?, hi]
        rfl
      · constructor
        · exact fun h1 => ⟨0, by omega, by omega⟩
        · rintro ⟨j, hj, hk⟩
          have := hhalf j
          omega
    · obtain ⟨results, st₁, hsim, hval, hlog⟩ := hm.simulateDesign (List.mem_of_getElem? hi) st
      have hrun (f : Results → RankM Selection) : ((do
          let results ← simulateDesign env designs (← rankAt rankList mid)
          f results).run st) = (f results).run st₁ := by
        rw [Exec.run_bind_ok (rankAt_run hi st), Exec.run_bind_ok hsim]
      by_cases hthr : simulated env designs metric i ≤ env.threshold metric
      · refine ⟨.many (rankList.take (mid + 1)), st₁, mid + 1, ⟨?_, rfl, by simp, hlog⟩, by omega,
          by omega, fun k hcut => ?_⟩
        · rw [hrun, if_pos (hval metric ▸ hthr)]
          rfl
        · have hk := (hcut mid i hi).mp hthr
          constructor
          · exact fun h1 => ⟨0, by omega, by omega⟩
          · rintro ⟨j, hj, -⟩
            have := hhalf j
            omega
      · obtain ⟨selection, st', n, hends, hn, hn', hiff⟩ :=
          ih (h := mid) (by omega) (by omega) (by omega) st₁
        refine ⟨selection, st', n, ⟨?_, hends.designs_eq, hends.ne_none, hlog.trans hends.logs⟩, hn,
          hn', fun k hcut => (hiff k hcut).trans ?_⟩
        · rw [hrun, if_neg (hval metric ▸ hthr), hends.run_eq]
        · have hk : k ≤ mid := not_lt.mp fun hlt => hthr ((hcut mid i hi).mpr hlt)
          rw [← hkept]
          simp only [div_two_div_two_pow]
          constructor
          · rintro ⟨j, hj⟩
            exact ⟨j + 1, hj⟩
          · rintro ⟨_ | j, hj⟩
            · exfalso
              rw [Nat.zero_add, Nat.pow_one] at hj
              omega
            · exact ⟨j, hj⟩

/-! ### Performance -/

/-- With `h` candidates left the search keeps one design more than one of the halves of `h`. If all
but the first `k` designs meet the threshold, then it keeps them exactly if their number is of this
form. -/
lemma perfLoop_ends (metric : Metric) {h : ℕ} (hm : Measured env designs rankList)
    (hpos : 0 < h) (hle : h ≤ rankList.length) (hfuel : h ≤ fuel) (st : Counters) :
    ∃ selection st' n,
      Ends env designs (perfLoop env designs rankList metric (rankList.length - 1) fuel
        (rankList.length - h)) st (rankList.drop n) selection st' ∧ n < rankList.length ∧
      ∀ k ≤ rankList.length, (∀ i j, rankList[i]? = some j →
          (simulated env designs .perf j < env.threshold metric ↔ i < k)) →
        (n = k ↔ ∃ j, rankList.length - k = h / 2 ^ (j + 1) + 1) := by
  induction fuel generalizing h st with
  | zero => omega
  | succ fuel ih =>
    have hhalf (j : ℕ) := div_two_pow_succ_le h j
    obtain ⟨mid, hmid⟩ : ∃ mid : ℕ, mid = (rankList.length - 1 + (rankList.length - h)) / 2 :=
      ⟨_, rfl⟩
    have hmid' : ((rankList.length : ℤ) - 1 + (rankList.length - h)) / 2 = mid := by omega
    obtain ⟨i, hi⟩ : ∃ i, rankList[mid]? = some i :=
      ⟨_, List.getElem?_eq_getElem (by omega)⟩
    rw [perfLoop, if_pos (by omega)]
    simp only [hmid']
    split_ifs with hhigh
    · -- the last design is kept without a simulation
      refine ⟨.one i, st, rankList.length - 1, ends_one (rankAt_run hi st) ?_, by omega,
        fun k hk _ => ?_⟩
      · have hlast : mid = rankList.length - 1 := by omega
        rw [hlast, ← List.getLast?_eq_getElem?] at hi
        have hne : rankList ≠ [] := by
          rintro rfl
          simp at hi
        rw [List.getLast?_eq_some_getLast hne, Option.some_inj] at hi
        rw [List.drop_length_sub_one hne, hi]
      · constructor
        · exact fun h1 => ⟨0, by omega⟩
        · rintro ⟨j, hj⟩
          have hone : h / 2 = 0 := by omega
          have hzero : h / 2 ^ (j + 1) = 0 := Nat.le_zero.mp ((hhalf j).trans hone.le)
          omega
    · obtain ⟨results, st₁, hsim, hval, hlog⟩ := hm.simulateDesign (List.mem_of_getElem? hi) st
      have hperf : simulated env designs .perf i = results.ipc := hval .perf
      have hrun (f : Results → RankM Selection) : ((do
          let results ← simulateDesign env designs (← rankAt rankList mid)
          f results).run st) = (f results).run st₁ := by
        rw [Exec.run_bind_ok (rankAt_run hi st), Exec.run_bind_ok hsim]
      by_cases hthr : simulated env designs .perf i < env.threshold metric
      · have hlow : (mid : ℤ) + 1 = rankList.length - (h / 2 : ℕ) := by omega
        obtain ⟨selection, st', n, hends, hn, hiff⟩ :=
          ih (h := h / 2) (by omega) (by omega) (by omega) st₁
        refine ⟨selection, st', n, ⟨?_, hends.designs_eq, hends.ne_none, hlog.trans hends.logs⟩, hn,
          fun k hk hcut => (hiff k hk hcut).trans ?_⟩
        · rw [hrun, if_pos (hperf ▸ hthr), hlow, hends.run_eq]
        · have hlt := (hcut mid i hi).mp hthr
          simp only [div_two_div_two_pow]
          constructor
          · rintro ⟨j, hj⟩
            exact ⟨j + 1, hj⟩
          · rintro ⟨_ | j, hj⟩
            · exfalso
              rw [Nat.zero_add, Nat.pow_one] at hj
              omega
            · exact ⟨j, hj⟩
      · refine ⟨.many (rankList.drop mid), st₁, mid, ⟨?_, rfl, by simp, hlog⟩, by omega,
          fun k hk hcut => ?_⟩
        · rw [hrun, if_neg (hperf ▸ hthr)]
          rfl
        · have hge : k ≤ mid := not_lt.mp fun hlt => hthr ((hcut mid i hi).mpr hlt)
          constructor
          · exact fun h1 => ⟨0, by omega⟩
          · rintro ⟨j, hj⟩
            have := hhalf j
            omega

/-! ### What is kept -/

lemma take_eq_take_iff {n k : ℕ} (hn : n ≤ rankList.length) (hk : k ≤ rankList.length) :
    rankList.take n = rankList.take k ↔ n = k := by
  refine ⟨fun h => ?_, fun h => by rw [h]⟩
  have := congrArg List.length h
  simpa [hn, hk] using this

lemma drop_eq_drop_iff {n k : ℕ} (hn : n ≤ rankList.length) (hk : k ≤ rankList.length) :
    rankList.drop n = rankList.drop k ↔ n = k := by
  refine ⟨fun h => ?_, fun h => by rw [h]⟩
  have := congrArg List.length h
  simp only [List.length_drop] at this
  omega

variable (env designs) in
/-- The ranking is sorted by the simulated metric. -/
def SortedBy (metric : Metric) (rankList : List ℕ) : Prop :=
  rankList.Pairwise fun i j => simulated env designs metric i ≤ simulated env designs metric j

lemma binarySearchForPowerAndArea_iff (hm : Measured env designs rankList) (hne : rankList ≠ [])
    (hfuel : rankList.length ≤ fuel) (hsorted : SortedBy env designs metric rankList)
    (st : Counters) :
    ∃ selection st',
      (binarySearchForPowerAndArea env designs fuel rankList metric).run st =
        (.ok selection, st') ∧
      (selection.designs =
          rankList.filter (simulated env designs metric · ≤ env.threshold metric) ↔
        ∃ j, rankList.countP (simulated env designs metric · ≤ env.threshold metric) =
            (rankList.length + 1) / 2 ^ (j + 1) ∧
          0 < rankList.countP (simulated env designs metric · ≤ env.threshold metric)) := by
  have hcut : Cut (simulated env designs metric · ≤ env.threshold metric) rankList :=
    hsorted.imp fun hle h => hle.trans h
  obtain ⟨selection, st', n, hends, -, hn, hiff⟩ :=
    powerAndAreaLoop_ends metric hm (List.length_pos_iff.mpr hne) le_rfl hfuel st
  refine ⟨selection, st', hends.run_eq, ?_⟩
  rw [hends.designs_eq, hcut.filter_eq_take, take_eq_take_iff hn List.countP_le_length]
  exact hiff _ fun i j hj => hcut.iff_lt_countP hj

lemma binarySearchForPerf_iff (hm : Measured env designs rankList) (hne : rankList ≠ [])
    (hfuel : rankList.length ≤ fuel) (hsorted : SortedBy env designs .perf rankList)
    (st : Counters) :
    ∃ selection st',
      (binarySearchForPerf env designs fuel rankList .perf).run st = (.ok selection, st') ∧
      (selection.designs =
          rankList.filter (env.threshold .perf ≤ simulated env designs .perf ·) ↔
        ∃ j, rankList.countP (env.threshold .perf ≤ simulated env designs .perf ·) =
          rankList.length / 2 ^ (j + 1) + 1) := by
  have hcut : Cut (simulated env designs .perf · < env.threshold .perf) rankList :=
    hsorted.imp fun hle h => hle.trans_lt h
  have hle : rankList.countP (simulated env designs .perf · < env.threshold .perf) ≤
      rankList.length := List.countP_le_length
  obtain ⟨selection, st', n, hends, hn, hiff⟩ :=
    perfLoop_ends .perf hm (List.length_pos_iff.mpr hne) le_rfl hfuel st
  have hrun := hends.run_eq
  rw [sub_self] at hrun
  refine ⟨selection, st', hrun, ?_⟩
  -- what meets the threshold is what does not miss it
  have hnot : rankList.filter (env.threshold .perf ≤ simulated env designs .perf ·) =
      rankList.filter (fun i => ¬simulated env designs .perf i < env.threshold .perf) := by
    simp only [not_lt]
  have hcount : rankList.countP (env.threshold .perf ≤ simulated env designs .perf ·) =
      rankList.length - rankList.countP (simulated env designs .perf · < env.threshold .perf) := by
    rw [List.countP_eq_length_filter, hnot, hcut.filter_not_eq_drop, List.length_drop]
  rw [hends.designs_eq, hnot, hcut.filter_not_eq_drop, drop_eq_drop_iff hn.le hle, hcount]
  exact hiff _ hle fun i j hj => hcut.iff_lt_countP hj

/-- On every ranking that is not empty and sorted by the simulated metric both searches terminate
within as many iterations as there are designs. The search for power or area keeps the designs that
meet the threshold exactly if their number is one of the halves `(n + 1) / 2`, `(n + 1) / 4`, … that
is not zero, and the search for performance exactly if their number is one of `n / 2 + 1`,
`n / 4 + 1`, …. -/
theorem searches_exact_iff (env : Ranker) (designs : List (List ℤ)) (rankList : List ℕ)
    (hm : Measured env designs rankList) (hne : rankList ≠ []) (fuel : ℕ)
    (hfuel : rankList.length ≤ fuel) (st : Counters) :
    (∀ metric, metric = .power ∨ metric = .area → SortedBy env designs metric rankList →
      ∃ selection st', (search env designs fuel rankList metric).run st = (.ok selection, st') ∧
        (selection.designs =
            rankList.filter (simulated env designs metric · ≤ env.threshold metric) ↔
          ∃ j, rankList.countP (simulated env designs metric · ≤ env.threshold metric) =
              (rankList.length + 1) / 2 ^ (j + 1) ∧
            0 < rankList.countP (simulated env designs metric · ≤ env.threshold metric))) ∧
      (SortedBy env designs .perf rankList →
        ∃ selection st', (search env designs fuel rankList .perf).run st = (.ok selection, st') ∧
          (selection.designs =
              rankList.filter (env.threshold .perf ≤ simulated env designs .perf ·) ↔
            ∃ j, rankList.countP (env.threshold .perf ≤ simulated env designs .perf ·) =
              rankList.length / 2 ^ (j + 1) + 1)) := by
  refine ⟨fun metric hmetric hsorted => ?_, fun hsorted => ?_⟩
  · have hsearch : search env designs fuel rankList metric =
        binarySearchForPowerAndArea env designs fuel rankList metric := by
      rcases hmetric with rfl | rfl <;> rfl
    rw [hsearch]
    exact binarySearchForPowerAndArea_iff hm hne hfuel hsorted st
  · exact binarySearchForPerf_iff hm hne hfuel hsorted st

/-! ### Four designs -/

/-- A space with four sizes of the reorder buffer. -/
def robSpace : O3CPUDesignSpace where
  descriptions := ⟨[("o3cpu", ⟨[("ROB", [1, 2, 3, 4])], by decide⟩)], by decide⟩
  componentsMappings := ⟨[("ROB", ⟨["numROBEntries"],
    ⟨[(1, [32]), (2, [64]), (3, [96]), (4, [128])], by decide⟩⟩)], by decide⟩
  size := 4
  nonempty := by decide
  size_eq := by decide

/-- The metrics of the design with the index `idx` are `idx`, and there are thresholds that two
designs meet. -/
def robRanker : Ranker where
  space := robSpace
  results := fun idx => ⟨idx, 1 / idx, idx, idx⟩
  threshold
    | .perf => 3
    | _     => 2

def robRows : List (List ℤ) := [[32], [64], [96], [128]]

lemma measured_robRows : Measured robRanker robRows [0, 1, 2, 3] := by
  have h : ∀ i ∈ [0, 1, 2, 3], (measure robRanker robRows i).isOk = true := by decide +kernel
  intro i hi
  cases hi' : measure robRanker robRows i with
  | ok p    => exact ⟨p, rfl⟩
  | error e => simpa [hi', Except.isOk, Except.toBool] using h i hi

/-- The search for power simulates one design and the search for performance two of them, and both
keep the designs that meet the threshold. -/
theorem searches_exact_iff_four :
    Measured robRanker robRows [0, 1, 2, 3] ∧ SortedBy robRanker robRows .power [0, 1, 2, 3] ∧
    SortedBy robRanker robRows .perf [0, 1, 2, 3] ∧
    (∃ selection st', (search robRanker robRows 4 [0, 1, 2, 3] .power).run {} =
      (.ok selection, st') ∧ selection.designs = [0, 1] ∧ st'.exploredSet = [2]) ∧
    ∃ selection st', (search robRanker robRows 4 [0, 1, 2, 3] .perf).run {} =
      (.ok selection, st') ∧ selection.designs = [2, 3] ∧ st'.exploredSet = [2, 3] := by
  have hpower : SortedBy robRanker robRows .power [0, 1, 2, 3] := by
    unfold SortedBy
    decide +kernel
  have hperf : SortedBy robRanker robRows .perf [0, 1, 2, 3] := by
    unfold SortedBy
    decide +kernel
  have hlog : ((search robRanker robRows 4 [0, 1, 2, 3] .power).run {}).2.exploredSet = [2] ∧
      ((search robRanker robRows 4 [0, 1, 2, 3] .perf).run {}).2.exploredSet = [2, 3] := by
    decide +kernel
  obtain ⟨hsearch, hsearch'⟩ :=
    searches_exact_iff robRanker robRows [0, 1, 2, 3] measured_robRows (by simp) 4 le_rfl {}
  obtain ⟨selection, st, hrun, hiff⟩ := hsearch .power (.inl rfl) hpower
  obtain ⟨selection', st', hrun', hiff'⟩ := hsearch' hperf
  rw [hrun, hrun'] at hlog
  refine ⟨measured_robRows, hpower, hperf, ⟨selection, st, hrun, ?_, hlog.1⟩,
    selection', st', hrun', ?_, hlog.2⟩
  · rw [hiff.mpr ⟨0, by decide +kernel, by decide +kernel⟩]
    decide +kernel
  · rw [hiff'.mpr ⟨1, by decide +kernel⟩]
    decide +kernel

/-! ### Two designs -/

/-- The two designs of a space. -/
def twoRows : List (List ℤ) := [[32, 1, 8], [64, 1, 8]]

lemma simulated_twoRows (threshold : Metric → ℚ) (metric : Metric) :
    simulated { plainRanker with threshold } twoRows metric 0 = 1 ∧
      simulated { plainRanker with threshold } twoRows metric 1 = 2 := by
  have h₀ : measure { plainRanker with threshold } twoRows 0 = .ok (1, ⟨1, 1 / 1, 1, 1⟩) := rfl
  have h₁ : measure { plainRanker with threshold } twoRows 1 = .ok (2, ⟨2, 1 / 2, 2, 2⟩) := rfl
  constructor <;> simp only [simulated, h₀, h₁] <;> cases metric <;> rfl

lemma sortedBy_twoRows (threshold : Metric → ℚ) (metric : Metric) :
    SortedBy { plainRanker with threshold } twoRows metric [0, 1] := by
  obtain ⟨h₀, h₁⟩ := simulated_twoRows threshold metric
  simp [SortedBy, h₀, h₁]

/-- A threshold that both designs meet: the first one is kept without a simulation and the second
one is lost. -/
theorem search_loses_design :
    SortedBy { plainRanker with threshold := fun _ => 2 } twoRows .power [0, 1] ∧
      (search { plainRanker with threshold := fun _ => 2 } twoRows 2 [0, 1] .power).run {} =
        (.ok (.one 0), {}) ∧
      [0, 1].filter (simulated { plainRanker with threshold := fun _ => 2 } twoRows .power · ≤ 2)
        = [0, 1] := by
  obtain ⟨h₀, h₁⟩ := simulated_twoRows (fun _ => 2) .power
  refine ⟨sortedBy_twoRows _ _, rfl, ?_⟩
  simp [h₀, h₁]

end ArchExplorer.Baseline
