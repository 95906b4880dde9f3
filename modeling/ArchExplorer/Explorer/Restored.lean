import ArchExplorer.Explorer.Bookkeeping

/-!
# Terminated components

A terminated component is to stay at the best of its configurations. It is set back by the loop over
the bottlenecks, which may end before it, and the pass downwards may draw its bottleneck and move it
again.
-/

namespace ArchExplorer.Explorer

open ArchExplorer.Lib ArchExplorer.Lib.Text ArchExplorer.Design
open ArchExplorer.Core (Bottleneck bottleneck)

/-! ### The two passes -/

section Passes

variable [Averaging] {Config : Type} {c : Part Config} {mappings : Dict String Table} {topK : ℤ}
  {scm : SensitiveComponentManager} {cs : List (String × ℚ)} {sample : List String}
  {e e' : List ℤ} {config : Config}

/-- The pass upwards sets a terminated component back if it reaches its bottleneck, and leaves it
alone otherwise. -/
lemma config_increase (hnodup : (cs.map Prod.fst).Nodup) (hlen : e.length = 22)
    (hterm : (c.record scm.updateTerminate).terminate = true)
    (hbest : (c.record scm.updateTerminate).best = .ok config)
    (hreached : c.bottleneck.name ∈ reached (adjusts mappings scm.updateTerminate e) topK 0
      (cs.map Prod.fst) ∨ c.config e = .ok config)
    (hrun : (increaseHardwareResource mappings topK scm cs).run e = (.ok (), e')) :
    c.config e' = .ok config := by
  have hlen' : e'.length = e.length := length_increase hrun
  obtain ⟨e₁, hrun₁, hin, hout⟩ := increaseLoop_run hnodup (of_increaseLoop_run hnodup hrun)
  obtain rfl : e' = e₁ := (Prod.mk.inj (hrun.symm.trans hrun₁)).2
  by_cases hmem : c.bottleneck.name ∈ reached (adjusts mappings scm.updateTerminate e) topK 0
      (cs.map Prod.fst)
  · obtain ⟨e₂, hfallback, hconfig⟩ := c.fallback_eq _ e config hlen hbest
    have hone : (increaseOne mappings scm.updateTerminate c.bottleneck.name).run e =
        (.ok false, e₂) := by
      rw [c.increaseOne_eq mappings _ hterm]
      exact Exec.run_bind_ok hfallback _
    have hlocal : Local (· ∈ governed c.bottleneck.name)
        (increaseOne mappings scm.updateTerminate c.bottleneck.name) := local_increaseOne _
    have hlen₂ := hlocal.length_run e
    rw [hone] at hlen₂
    rw [c.config_congr e' e₂ ⟨hlen'.trans hlen₂.symm, fun p hp => ?_⟩, hconfig]
    rw [hin _ hmem p hp, hone]
  · rw [c.config_congr e' e ⟨hlen', fun p hp => ?_⟩, hreached.resolve_left hmem]
    exact hout p fun name hname hp' => hmem (eq_of_mem_governed hp hp' ▸ hname)

/-- The pass downwards leaves a component alone whose bottleneck is not drawn. -/
lemma config_decrease (hsample : c.bottleneck.name ∉ sample)
    (hrun : (decreaseHardwareResourceV2 mappings topK cs sample).run e = (.ok (), e')) :
    c.config e' = c.config e := by
  have hlocal : Local (· ∉ governed c.bottleneck.name)
      (decreaseHardwareResourceV2 mappings topK cs sample) := by
    refine Local.ite (.throw _) (Local.forM_list fun name hname => ?_)
    refine ((local_adjustNamed name).mono fun p hp hp' => ?_).bind fun _ => .pure _
    exact hsample (eq_of_mem_governed hp hp' ▸ hname)
  have hframe := hlocal.frame e
  rw [hrun] at hframe
  exact c.config_congr e' e (hframe.mono fun p hp hnot => hnot hp)

end Passes

/-! ### The search -/

lemma nodup_of_getBottleneckContribution {rpts : List (Option Text)}
    {scm scm₁ : SensitiveComponentManager} {l : List (String × ℚ)}
    (h : getBottleneckContribution rpts scm = .ok (l, scm₁)) : (l.map Prod.fst).Nodup := by
  obtain ⟨d, -, -, rfl⟩ := of_getBottleneckContribution h
  exact ((summary_perm d).map Prod.fst).nodup_iff.mpr d.nodup

section Search

variable [Averaging] {Config : Type} (c : Part Config) (s : O3CPUDesignSpace) (topK : ℤ)
  (env : Environment) (i : ℕ) (st : SearchState)

/-- If the component is terminated in iteration `i` then the new design has its best
configuration. -/
def AtBest : Prop :=
  ∀ l scm₁ e', getBottleneckContribution (env.analysis i) st.scm = .ok (l, scm₁) →
    (bottleneckRemoval s topK (env.sample i) scm₁ st.idx l).1 = .ok e' →
    (c.record scm₁.updateTerminate).terminate = true →
      ∃ config, (c.record scm₁.updateTerminate).best = .ok config ∧ c.config e' = .ok config

/-- If the component is terminated in iteration `i` then its bottleneck is not drawn, and the loop
reaches it in the iteration in which the component becomes terminated. -/
def Undisturbed : Prop :=
  ∀ l scm₁ e, getBottleneckContribution (env.analysis i) st.scm = .ok (l, scm₁) →
    s.idxToEmbedding st.idx = .ok e → (c.record scm₁.updateTerminate).terminate = true →
      c.bottleneck.name ∉ env.sample i ∧ ((c.record st.scm).terminate = false →
        c.bottleneck.name ∈ reached (adjusts s.componentsMappings scm₁.updateTerminate e) topK 0
          (l.map Prod.fst))

variable {c s topK env i st} {settings : Settings} {st₀ : SearchState}

lemma exists_of_removal {sample : List String} {scm : SensitiveComponentManager} {idx : ℤ}
    {l : List (String × ℚ)} {e' : List ℤ}
    (h : (bottleneckRemoval s topK sample scm idx l).1 = .ok e') :
    ∃ e, s.idxToEmbedding idx = .ok e := by
  unfold bottleneckRemoval at h
  split at h
  · cases h
  · exact ⟨_, ‹_›⟩

/-- The best configuration of a terminated component is the same after the analysis. -/
lemma best_of_terminate {l : List (String × ℚ)} {scm₁ : SensitiveComponentManager}
    (hl : getBottleneckContribution (env.analysis i) st.scm = .ok (l, scm₁))
    (hterm : (c.record st.scm).terminate = true) :
    (c.record scm₁.updateTerminate).best = (c.record st.scm).best := by
  obtain ⟨d, -, hupdate, -⟩ := of_getBottleneckContribution hl
  rcases of_unlessTerminated (c.record_update _ _ _ hupdate) with ⟨-, heq⟩ | ⟨hfalse, -⟩
  · rw [c.record_updateTerminate, heq, SensitiveComponent.best, SensitiveComponent.best,
      updateTerminate_configs, updateTerminate_contribution]
  · exact absurd (hfalse.symm.trans hterm) (by decide)

/-- The step. A component that was terminated before is at its best in the design that is
evaluated. -/
lemma atBest_of_undisturbed (h : Indexed s) (hstep : Undisturbed c s topK env i st)
    (hsound : ∀ l scm₁, getBottleneckContribution (env.analysis i) st.scm = .ok (l, scm₁) →
      (c.record scm₁.updateTerminate).Sound)
    (hcur : (c.record st.scm).terminate = true → ∀ e, s.idxToEmbedding st.idx = .ok e →
      ∃ config, (c.record st.scm).best = .ok config ∧ c.config e = .ok config) :
    AtBest c s topK env i st := by
  intro l scm₁ e' hl hremoval hterm
  obtain ⟨e, he⟩ := exists_of_removal hremoval
  obtain ⟨e₁, hup, hdown⟩ := removal_inv he hremoval
  obtain ⟨hsample, hfirst⟩ := hstep l scm₁ e hl he hterm
  obtain ⟨-, config, -, hbest, -⟩ := (hsound l scm₁ hl).exists_best
  refine ⟨config, hbest, ?_⟩
  rw [config_decrease hsample hdown]
  refine config_increase (nodup_of_getBottleneckContribution hl) (h.length _ _ he) hterm hbest ?_
    hup
  cases hbefore : (c.record st.scm).terminate with
  | false => exact .inl (hfirst hbefore)
  | true =>
    obtain ⟨config', hbest', hconfig⟩ := hcur hbefore e he
    rw [← best_of_terminate hl hbefore, hbest] at hbest'
    exact .inr (Except.ok.inj hbest' ▸ hconfig)

/-- A component that is terminated at the beginning of an iteration was so in the one before. -/
lemma terminate_of_record {scm scm' : SensitiveComponentManager} {e' : List ℤ}
    (hscm : scm.setConfig e' = .ok scm') (hterm : (c.record scm').terminate = true) :
    (c.record scm).terminate = true ∧ c.record scm' = c.record scm := by
  rcases of_unlessTerminated (c.record_setConfig _ _ _ hscm) with ⟨htrue, heq⟩ | ⟨hfalse, _, -, heq⟩
  · exact ⟨htrue, heq⟩
  · rw [heq] at hterm
    exact absurd (hfalse.symm.trans hterm) (by decide)

/-- No component is terminated at the beginning. -/
lemma terminate_init {scm : SensitiveComponentManager} {draw : ℕ → ℕ} {start : ℤ}
    (hinit : explorationInit s scm draw start = .ok st₀) :
    (c.record st₀.scm).terminate = false := by
  obtain ⟨idx, -, hinit⟩ := bind_eq_ok hinit
  obtain ⟨e, -, hinit⟩ := bind_eq_ok hinit
  obtain ⟨scm', hscm, hinit⟩ := bind_eq_ok hinit
  obtain rfl := Except.ok.inj hinit
  refine Bool.of_not_eq_true fun hterm => ?_
  obtain ⟨hreset, -⟩ := terminate_of_record hscm hterm
  rw [c.record_reset] at hreset
  cases hreset

/-- A search in which the component is not disturbed evaluates it at its best once it is
terminated. -/
lemma current_of_visits (h : Indexed s) {scm : SensitiveComponentManager} {draw : ℕ → ℕ}
    {start : ℤ} (hinit : explorationInit s scm draw start = .ok st₀)
    (hv : Loop.Visits (explorationBody s settings env) st₀ i st)
    (hrun : ∀ j < i, ∀ st', Loop.Visits (explorationBody s settings env) st₀ j st' →
      Undisturbed c s settings.topK env j st') :
    (c.record st.scm).terminate = true → ∀ e, s.idxToEmbedding st.idx = .ok e →
      ∃ config, (c.record st.scm).best = .ok config ∧ c.config e = .ok config := by
  induction hv with
  | start =>
    intro hterm
    rw [terminate_init hinit] at hterm
    cases hterm
  | @next i st st' hv hbody ih =>
    intro hterm e he
    obtain ⟨e₀, e', pppa, l, scm₁, hiter, -⟩ := of_explorationBody_next hbody
    obtain ⟨hterm₁, heq⟩ := terminate_of_record hiter.record hterm
    obtain rfl : e' = e := Except.ok.inj ((hiter.idxToEmbedding h).symm.trans he)
    rw [heq]
    refine atBest_of_undisturbed h (hrun i i.lt_succ_self st hv) (fun l scm₁ hl => ?_)
      (ih fun j hj => hrun j (Nat.lt_succ_of_lt hj)) l scm₁ e' hiter.contribution hiter.removal
      hterm₁
    exact ((tracks_of_visits h hinit hv).filled hl).sound

/-- Every new design of such a search has the best configuration. -/
lemma atBest_of_visits (c : Part Config) (h : Indexed s) {scm : SensitiveComponentManager}
    {draw : ℕ → ℕ} {start : ℤ} (hinit : explorationInit s scm draw start = .ok st₀)
    (hv : Loop.Visits (explorationBody s settings env) st₀ i st)
    (hrun : ∀ j ≤ i, ∀ st', Loop.Visits (explorationBody s settings env) st₀ j st' →
      Undisturbed c s settings.topK env j st') :
    AtBest c s settings.topK env i st :=
  atBest_of_undisturbed h (hrun i le_rfl st hv)
    (fun _ _ hl => ((tracks_of_visits h hinit hv).filled hl).sound)
    (current_of_visits h hinit hv fun j hj => hrun j hj.le)

end Search

/-- The component is not disturbed up to iteration `i`. -/
def UndisturbedUntil [Averaging] {Config : Type} (c : Part Config) (s : O3CPUDesignSpace)
    (settings : Settings) (env : Environment) (st₀ : SearchState) (i : ℕ) : Prop :=
  ∀ j ≤ i, ∀ st, Loop.Visits (explorationBody s settings env) st₀ j st →
    Undisturbed c s settings.topK env j st

/-- Each component stays at its best configuration in a search that does not disturb it. -/
theorem terminated_atBest [Averaging] (s : O3CPUDesignSpace) (h : Indexed s) (settings : Settings)
    (env : Environment) (scm : SensitiveComponentManager) (draw : ℕ → ℕ) (start : ℤ)
    (st₀ : SearchState) (hinit : explorationInit s scm draw start = .ok st₀) (i : ℕ)
    (st : SearchState) (hv : Loop.Visits (explorationBody s settings env) st₀ i st) :
    (UndisturbedUntil bpPart s settings env st₀ i → AtBest bpPart s settings.topK env i st) ∧
    (UndisturbedUntil icachePart s settings env st₀ i →
      AtBest icachePart s settings.topK env i st) ∧
    (UndisturbedUntil dcachePart s settings env st₀ i →
      AtBest dcachePart s settings.topK env i st) :=
  ⟨atBest_of_visits bpPart h hinit hv, atBest_of_visits icachePart h hinit hv,
    atBest_of_visits dcachePart h hinit hv⟩

/-- The state before the third iteration. -/
def fetchThird : SearchState where
  scm := ⟨⟨false, [(1, 1, 1), (1, 1, 1), (1, 1, 1)], [0, 0], some 0⟩,
    ⟨true, [(32, 1), (64, 1)], [1 / 10, 1 / 5], some (1 / 10)⟩,
    ⟨false, [(1, 4), (1, 4), (1, 4)], [0, 0], some 0⟩⟩
  idx := 9
  lastUpdate := 0
  solutions := ⟨[⟨fetchDesign, ⟨1, 1, 1, 1⟩, 1⟩,
    ⟨(fetchDesign.set 8 32).set 18 64, ⟨1, 1, 1, 1⟩, 1⟩], 1, some ⟨1, 1, 1, 1⟩, 10⟩

lemma fetchNext_step : FetchStep fetchSearch 8 2 1 fetchNext fetchThird
    ((fetchDesign.set 8 32).set 18 64) (fetchDesign.set 8 32) fetchAnalysed := by
  decide +kernel

/-- What the second iteration computes about the instruction cache. -/
lemma fetchNext_calls :
    (icachePart.record fetchMeasured.updateTerminate).terminate = false ∧
      (icachePart.record fetchAnalysed.updateTerminate).terminate = true ∧
      icachePart.config (fetchDesign.set 8 32) = .ok (32, 1) ∧
      icachePart.bottleneck.name ∈ reached
        (adjusts (spaceOf cacheRows).componentsMappings fetchAnalysed.updateTerminate
          ((fetchDesign.set 8 32).set 18 64)) fetchSettings.topK 0
        ((fetchShares 8 2).items.map Prod.fst) := by
  decide +kernel

/-- The first two iterations do not disturb the instruction cache. -/
lemma undisturbed_fetch :
    UndisturbedUntil icachePart (spaceOf cacheRows) fetchSettings fetchSearch fetchStart 1 := by
  obtain ⟨hactive, -, -, hreached⟩ := fetchNext_calls
  intro j hj st hv l scm₁ e hl he hterm
  obtain rfl | rfl : j = 0 ∨ j = 1 := by omega
  · obtain rfl := hv.unique .start
    obtain ⟨-, rfl⟩ := Prod.mk.inj (Except.ok.inj (contribution_fetchStart.symm.trans hl))
    exact absurd (hactive.symm.trans hterm) (by decide)
  · obtain rfl := hv.unique visits_fetchNext
    obtain ⟨rfl, rfl⟩ := Prod.mk.inj (Except.ok.inj (contribution_fetchNext.symm.trans hl))
    obtain rfl : _ = e := Except.ok.inj (fetchNext_step.1.symm.trans he)
    exact ⟨by decide, fun _ => hreached⟩

/-- The second iteration terminates the cache and sets it back to 32 KB. -/
theorem terminated_atBest_fetch :
    ∃ config, (icachePart.record fetchAnalysed.updateTerminate).best = .ok config ∧
      icachePart.config (fetchDesign.set 8 32) = .ok config ∧ config = (32, 1) := by
  have hbest := (terminated_atBest (spaceOf cacheRows) explorable_cacheRows.indexed fetchSettings
    fetchSearch fetchStart.scm id 10 fetchStart (explorationInit_fetch _ _) 1 fetchNext
    visits_fetchNext).2.1 undisturbed_fetch
  obtain ⟨-, -, -, -, hremoval, -⟩ := fetchNext_step
  obtain ⟨-, hterm, hdesign, -⟩ := fetchNext_calls
  obtain ⟨config, hconfig, hdesign'⟩ := hbest _ _ _ contribution_fetchNext hremoval hterm
  exact ⟨config, hconfig, hdesign', Except.ok.inj (hdesign'.symm.trans hdesign)⟩

/-! ### A component that is moved again -/

lemma visits_fetchThird :
    Loop.Visits (explorationBody (spaceOf cacheRows) fetchSettings fetchSearch) fetchStart 2
      fetchThird :=
  fetchNext_step.visits contribution_fetchNext visits_fetchNext

/-- The record after the analysis of the third iteration. -/
def fetchSettled : SensitiveComponentManager :=
  ⟨⟨false, [(1, 1, 1), (1, 1, 1), (1, 1, 1)], [0, 0, 0], some 0⟩,
    ⟨true, [(32, 1), (64, 1)], [1 / 10, 1 / 5], some (1 / 10)⟩,
    ⟨false, [(1, 4), (1, 4), (1, 4)], [0, 0, 0], some 0⟩⟩

/-- The third iteration, and the samples of all three. -/
lemma fetchThird_calls :
    (IsSample (idle (fetchShares 9 1).items) (sampleSize 1 (idle (fetchShares 9 1).items))
        (fetchSearch.sample 0) ∧
      IsSample (idle (fetchShares 8 2).items) (sampleSize 1 (idle (fetchShares 8 2).items))
        (fetchSearch.sample 1) ∧
      IsSample (idle (fetchShares 10 0).items) (sampleSize 1 (idle (fetchShares 10 0).items))
        (fetchSearch.sample 2)) ∧
      fetchThird.scm.update (fetchShares 10 0) = .ok fetchSettled ∧
      (bottleneckRemoval (spaceOf cacheRows) fetchSettings.topK (fetchSearch.sample 2) fetchSettled
        fetchThird.idx (fetchShares 10 0).items).1 = .ok (fetchDesign.set 18 16) ∧
      (icachePart.record fetchSettled.updateTerminate).terminate = true ∧
      (icachePart.record fetchSettled.updateTerminate).best = .ok (32, 1) ∧
      icachePart.config (fetchDesign.set 18 16) = .ok (16, 1) := by
  decide +kernel

/-- The third design does not wait for the instruction cache, which is terminated. Its bottleneck is
drawn, and it shrinks to 16 KB. -/
theorem terminated_icache_shrinks :
    Explorable (spaceOf cacheRows) ∧
      explorationInit (spaceOf cacheRows) fetchStart.scm id 10 = .ok fetchStart ∧
      Loop.Visits (explorationBody (spaceOf cacheRows) fetchSettings fetchSearch) fetchStart 2
        fetchThird ∧ 2 < fetchSettings.budget ∧
      IsSample (idle (fetchShares 9 1).items) (sampleSize 1 (idle (fetchShares 9 1).items))
        (fetchSearch.sample 0) ∧
      IsSample (idle (fetchShares 8 2).items) (sampleSize 1 (idle (fetchShares 8 2).items))
        (fetchSearch.sample 1) ∧
      IsSample (idle (fetchShares 10 0).items) (sampleSize 1 (idle (fetchShares 10 0).items))
        (fetchSearch.sample 2) ∧
      ¬ AtBest icachePart (spaceOf cacheRows) fetchSettings.topK fetchSearch 2 fetchThird := by
  obtain ⟨⟨hsample₀, hsample₁, hsample₂⟩, hupdate, hremoval, hterm, hlarge, hsmall⟩ :=
    fetchThird_calls
  have hl : getBottleneckContribution (fetchSearch.analysis 2) fetchThird.scm =
      .ok ((fetchShares 10 0).items, fetchSettled) :=
    getBottleneckContribution_fetch (by decide) (by decide) (by decide) hupdate
  refine ⟨explorable_cacheRows, explorationInit_fetch _ _, visits_fetchThird, by decide, hsample₀,
    hsample₁, hsample₂, fun hbest => ?_⟩
  obtain ⟨config, hconfig, hdesign⟩ := hbest _ _ _ hl hremoval hterm
  obtain rfl : config = (32, 1) := Except.ok.inj (hconfig.symm.trans hlarge)
  exact absurd (Except.ok.inj (hdesign.symm.trans hsmall)) (by decide)

end ArchExplorer.Explorer
