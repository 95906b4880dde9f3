import ArchExplorer.Explorer.Choice
import ArchExplorer.Explorer.Restored
import ArchExplorer.Lib.Improvement
import Mathlib.Data.List.ReduceOption

/-!
# The result of a search

The design that is evaluated, its entry in the trace, the best design and the last improvement are
updated at different places of the loop. Together they keep the best of the designs that have been
evaluated, and the search stops when there has been no improvement for a while.
-/

namespace ArchExplorer.Explorer

open ArchExplorer.Lib ArchExplorer.Lib.Text ArchExplorer.Design
open ArchExplorer.Core (Bottleneck bottleneck)

/-! ### What is recorded -/

section Log

variable [Averaging] (s : O3CPUDesignSpace) (settings : Settings) (env : Environment)
  (st₀ : SearchState)

/-- The entry is that of the design that iteration `k` evaluates. -/
def EntryOf (k : ℕ) (entry : Entry) : Prop :=
  ∃ st, Loop.Visits (explorationBody s settings env) st₀ k st ∧
    s.idxToEmbedding st.idx = .ok entry.embedding ∧
    entry.results = getSimulationResults (env.ppa k) ∧
    metric entry.results.ipc entry.results.power entry.results.area = .ok entry.pppa

/-- The best design is the first one of the trace with the largest value, that of iteration `k`. -/
structure IsBest (solutions : Solutions) (k : ℕ) (entry : Entry) (st : SearchState) : Prop where
  position : solutions.trace[k]? = some entry
  visits : Loop.Visits (explorationBody s settings env) st₀ k st
  idx : solutions.bestIdx = st.idx
  ppa : solutions.bestPpa = some entry.results
  pppa : solutions.bestPppa = entry.pppa
  largest : ∀ entry' ∈ solutions.trace, entry'.pppa ≤ entry.pppa
  first : ∀ entry' ∈ solutions.trace.take k, entry'.pppa < entry.pppa

/-- The record after `n` iterations. -/
structure Logged (n : ℕ) (solutions : Solutions) (lastUpdate : ℕ) : Prop where
  length : solutions.trace.length = n
  entries : ∀ k entry, solutions.trace[k]? = some entry → EntryOf s settings env st₀ k entry
  improvement : lastUpdate = lastImprovement 0 (solutions.trace.map Entry.pppa)
  best : solutions.trace = [] ∧ solutions.bestPppa = 0 ∨
    ∃ entry st, IsBest s settings env st₀ solutions lastUpdate entry st

variable {s settings env st₀} {i lastUpdate : ℕ} {st : SearchState} {solutions : Solutions}
  {e : List ℤ} {pppa : ℚ}

/-- All values of the trace are below a value that is an improvement. -/
lemma Logged.lt_of_improved (h : Logged s settings env st₀ i solutions lastUpdate)
    (himproved : solutions.bestPppa < pppa) : ∀ entry ∈ solutions.trace, entry.pppa < pppa := by
  intro entry hentry
  rcases h.best with ⟨hnil, -⟩ | ⟨best, st, hbest⟩
  · rw [hnil] at hentry
    cases hentry
  · exact (hbest.largest entry hentry).trans_lt (hbest.pppa ▸ himproved)

/-- One more design. -/
lemma Logged.evaluated (h : Logged s settings env st₀ i st.solutions st.lastUpdate)
    (hv : Loop.Visits (explorationBody s settings env) st₀ i st)
    (he : s.idxToEmbedding st.idx = .ok e)
    (hmetric : metric (getSimulationResults (env.ppa i)).ipc
      (getSimulationResults (env.ppa i)).power (getSimulationResults (env.ppa i)).area = .ok pppa)
    (hpos : 0 < pppa) :
    Logged s settings env st₀ (i + 1) (evaluated env i st e pppa).1
      (evaluated env i st e pppa).2 := by
  set new : Entry := ⟨e, getSimulationResults (env.ppa i), pppa⟩
  have hlength : (st.solutions.trace ++ [new]).length = i + 1 := by
    rw [List.length_append, h.length, List.length_singleton]
  have hentries : ∀ k entry, (st.solutions.trace ++ [new])[k]? = some entry →
      EntryOf s settings env st₀ k entry := by
    intro k entry hk
    rcases getElem?_append_singleton hk with hk | ⟨rfl, rfl⟩
    · exact h.entries k entry hk
    · rw [h.length]
      exact ⟨st, hv, he, rfl, hmetric⟩
  have hlast : lastImprovement 0 ((st.solutions.trace ++ [new]).map Entry.pppa) =
      if 0 < pppa ∧ ∀ q ∈ st.solutions.trace.map Entry.pppa, q < pppa then i
      else st.lastUpdate := by
    rw [List.map_append, List.map_singleton, lastImprovement_append, List.length_map, h.length,
      h.improvement]
  by_cases himproved : st.solutions.bestPppa < pppa
  · have hlt := h.lt_of_improved himproved
    have hnew : (st.solutions.trace ++ [new])[i]? = some new := by
      rw [← h.length, List.getElem?_concat_length]
    have htake : (st.solutions.trace ++ [new]).take i = st.solutions.trace := by
      rw [← h.length, List.take_left]
    rw [Explorer.evaluated, improve, if_pos himproved]
    refine ⟨hlength, hentries, ?_, .inr ⟨new, st, hnew, hv, rfl, rfl, rfl, ?_, ?_⟩⟩
    · rw [hlast, if_pos ⟨hpos, List.forall_mem_map.mpr hlt⟩]
    · exact List.forall_mem_append.mpr ⟨fun entry hentry => (hlt entry hentry).le,
        List.forall_mem_singleton.mpr le_rfl⟩
    · exact htake.symm ▸ hlt
  · rw [Explorer.evaluated, improve, if_neg himproved]
    -- the first value is an improvement on zero
    obtain ⟨best, stb, hbest⟩ := h.best.resolve_left fun hnil => himproved (hnil.2 ▸ hpos)
    have hlt : st.lastUpdate < st.solutions.trace.length :=
      (List.getElem?_eq_some_iff.mp hbest.position).1
    have hle : pppa ≤ best.pppa := hbest.pppa ▸ not_lt.mp himproved
    refine ⟨hlength, hentries, ?_, .inr ⟨best, stb, ?_, hbest.visits, hbest.idx, hbest.ppa,
      hbest.pppa, ?_, ?_⟩⟩
    · rw [hlast, if_neg fun hall => ?_]
      have hmem := List.mem_map_of_mem (f := Entry.pppa) (List.mem_of_getElem? hbest.position)
      exact absurd (hall.2 _ hmem) hle.not_gt
    · exact (List.getElem?_append_left hlt).trans hbest.position
    · exact List.forall_mem_append.mpr ⟨hbest.largest, List.forall_mem_singleton.mpr hle⟩
    · rw [List.take_append_of_le_length hlt.le]
      exact hbest.first

end Log

/-! ### Every iteration returns -/

section Returns

variable {s : O3CPUDesignSpace} {settings : Settings} {env : Environment} {st₀ : SearchState}
  {i : ℕ} {st : SearchState} {scm : SensitiveComponentManager} {draw : ℕ → ℕ} {start : ℤ}
  {e : List ℤ}

lemma idxToEmbedding_init (hinit : explorationInit s scm draw start = .ok st₀) :
    ∃ e, s.idxToEmbedding st₀.idx = .ok e := by
  obtain ⟨idx, -, hinit⟩ := bind_eq_ok hinit
  obtain ⟨e, he, hinit⟩ := bind_eq_ok hinit
  obtain ⟨scm', -, hinit⟩ := bind_eq_ok hinit
  obtain rfl := Except.ok.inj hinit
  exact ⟨e, he⟩

/-- The index at the beginning of an iteration stands for a design. -/
lemma idxToEmbedding_of_visits [Averaging] (h : Indexed s)
    (hinit : explorationInit s scm draw start = .ok st₀)
    (hv : Loop.Visits (explorationBody s settings env) st₀ i st) :
    ∃ e, s.idxToEmbedding st.idx = .ok e := by
  cases hv with
  | start => exact idxToEmbedding_init hinit
  | next _ hbody =>
    obtain ⟨e, e', pppa, l, scm₁, hiter, -⟩ := of_explorationBody_next hbody
    exact ⟨e', hiter.idxToEmbedding h⟩

/-- The results of an evaluation are positive. -/
structure Results.Positive (r : Results) : Prop where
  ipc : 0 < r.ipc
  power : 0 < r.power
  area : 0 < r.area

lemma Results.Positive.metric {r : Results} (h : r.Positive) :
    ∃ pppa, metric r.ipc r.power r.area = .ok pppa ∧ 0 < pppa := by
  have hpos : 0 < r.power * r.area := mul_pos h.power h.area
  exact ⟨r.ipc ^ 2 / (r.power * r.area), if_neg hpos.ne', div_pos (pow_pos h.ipc 2) hpos⟩

/-- The sample of iteration `i` is one that `random.sample` may return. -/
def Drawn (settings : Settings) (env : Environment) (i : ℕ) : Prop :=
  ∀ d, measured (env.analysis i) = .ok d → 0 ≤ settings.topK →
    IsSample (idle (summary d)) (sampleSize settings.topK (idle (summary d))) (env.sample i)

lemma keys_of_measured {rpts : List (Option Text)} {d : Dict String ℚ}
    (h : measured rpts = .ok d) : d.keys = bottleneck := by
  obtain ⟨btnks, -, hcalc⟩ := bind_eq_ok h
  exact keys_of_calc hcalc

lemma nodup_summary {d : Dict String ℚ} (h : d.keys = bottleneck) :
    ((summary d).map Prod.fst).Nodup := by
  have hperm : ((summary d).map Prod.fst).Perm d.keys := (summary_perm d).map Prod.fst
  exact hperm.nodup_iff.mpr (h ▸ (by decide : bottleneck.Nodup))

lemma Drawn.nodup {d : Dict String ℚ} (h : Drawn settings env i)
    (hd : measured (env.analysis i) = .ok d) (htop : 0 ≤ settings.topK) : (env.sample i).Nodup := by
  obtain ⟨l, hl, hsub⟩ := (h d hd htop).1
  have hidle : (idle (summary d)).Nodup :=
    (nodup_summary (keys_of_measured hd)).sublist (List.filter_sublist.map Prod.fst)
  exact hl.nodup_iff.mp (hidle.sublist hsub)

end Returns

/-! ### The result -/

section Result

variable [Averaging]

variable {s : O3CPUDesignSpace} {settings : Settings} {env : Environment} {st₀ : SearchState}
  {i : ℕ} {st : SearchState} {scm : SensitiveComponentManager} {draw : ℕ → ℕ} {start : ℤ}

end Result

/-! ### Two searches -/

/-- No benchmark has a report. -/
lemma metric_failed [Averaging] {rpts : List (Option Ppa)} (h : ∀ r ∈ rpts, r = none) :
    metric (getSimulationResults rpts).ipc (getSimulationResults rpts).power
      (getSimulationResults rpts).area = .error .zeroDivisionError := by
  have hnil : rpts.reduceOption = [] := by
    refine List.eq_nil_iff_forall_not_mem.mpr fun r hr => ?_
    cases h _ (List.reduceOption_mem_iff.mp hr)
  have hzeros : getSimulationResults rpts = ⟨0, 0, 0, 0⟩ := by
    rw [getSimulationResults, hnil]
    rfl
  rw [hzeros]
  exact if_pos (mul_zero 0)

lemma explorationBody_failed [Averaging] {s : O3CPUDesignSpace} {settings : Settings}
    {env : Environment} {k : ℕ} {st : SearchState} {e : List ℤ}
    (he : s.idxToEmbedding st.idx = .ok e) (hfailed : ∀ r ∈ env.ppa k, r = none) :
    explorationBody s settings env k st = .error .zeroDivisionError := by
  rw [explorationBody, he, ok_bind]
  dsimp only
  rw [metric_failed hfailed, error_bind]

/-- A search one of whose simulations fails ends with an exception. -/
theorem failedSimulation_raises [Averaging] (s : O3CPUDesignSpace) (settings : Settings)
    (env : Environment) (scm : SensitiveComponentManager) (draw : ℕ → ℕ) (start : ℤ)
    (st₀ : SearchState) (hinit : explorationInit s scm draw start = .ok st₀) (k : ℕ)
    (hk : k < settings.budget) (st : SearchState)
    (hv : Loop.Visits (explorationBody s settings env) st₀ k st)
    (hfailed : ∀ r ∈ env.ppa k, r = none) :
    ∃ err, explorationImpl s settings env scm draw start = .error err ∧
      (Indexed s → err = .zeroDivisionError) := by
  rw [explorationImpl, hinit, ok_bind]
  cases he : s.idxToEmbedding st.idx with
  | error err =>
    refine ⟨err, Loop.run_error hv hk (by rw [explorationBody, he, error_bind]), fun h => ?_⟩
    obtain ⟨e, he'⟩ := idxToEmbedding_of_visits h hinit hv
    cases he.symm.trans he'
  | ok e =>
    exact ⟨.zeroDivisionError, Loop.run_error hv hk (explorationBody_failed he hfailed),
      fun _ => rfl⟩

/-- The first simulation succeeds and the second one fails. -/
def failingSearch : Environment :=
  { fetchSearch with ppa := fun i => if i = 0 then fetchSearch.ppa 0 else [none] }

lemma visits_failingSearch :
    Loop.Visits (explorationBody (spaceOf cacheRows) fetchSettings failingSearch) fetchStart 1
      fetchNext := by
  -- the two searches do not differ in the first iteration
  have hstep : FetchStep failingSearch 9 1 0 fetchStart fetchNext fetchDesign
      ((fetchDesign.set 8 32).set 18 64) fetchMeasured := fetchStart_step
  exact hstep.visits contribution_fetchStart .start

/-- The design of the first iteration is lost. -/
theorem failedSimulation_raises_fetch :
    fetchNext.solutions.bestIdx = 10 ∧
      explorationImpl (spaceOf cacheRows) fetchSettings failingSearch fetchStart.scm id 10 =
        .error .zeroDivisionError := by
  obtain ⟨err, herr, hzero⟩ := failedSimulation_raises (spaceOf cacheRows) fetchSettings
    failingSearch fetchStart.scm id 10 fetchStart (explorationInit_fetch _ _) 1 (by decide)
    fetchNext visits_failingSearch (by decide)
  exact ⟨rfl, hzero explorable_cacheRows.indexed ▸ herr⟩

/-- The exception of the second iteration takes the place of the record of the first one. -/
theorem failingSearch_raises :
    Explorable (spaceOf cacheRows) ∧ (∀ r ∈ failingSearch.ppa 1, r = none) ∧
      Loop.Visits (explorationBody (spaceOf cacheRows) fetchSettings failingSearch) fetchStart 1
        fetchNext ∧
      fetchNext.solutions.trace.length = 1 ∧
      explorationImpl (spaceOf cacheRows) fetchSettings failingSearch fetchStart.scm id 10 =
        .error .zeroDivisionError := by
  refine ⟨explorable_cacheRows, by decide, visits_failingSearch, rfl, ?_⟩
  rw [explorationImpl, explorationInit_fetch, ok_bind]
  exact Loop.run_error visits_failingSearch (by decide)
    (explorationBody_failed fetchNext_step.1 (by decide))

end ArchExplorer.Explorer
