import ArchExplorer.Explorer.Contribution
import ArchExplorer.Explorer.Idle

/-!
# The records of the sensitive components

A configuration is recorded when a design is chosen, and its contribution in the next iteration,
when the design has been analysed. Both stop when the component is terminated, so that the record a
component falls back to is complete.
-/

namespace ArchExplorer.Explorer

open ArchExplorer.Lib ArchExplorer.Lib.Text ArchExplorer.Design
open ArchExplorer.Core (Bottleneck bottleneck)

/-! ### The sensitive components -/

/-- A sensitive component: its bottleneck, its record, the part of an embedding that is recorded,
and how it is set back. -/
structure Part [Averaging] (Config : Type) where
  bottleneck : Bottleneck
  record : SensitiveComponentManager → SensitiveComponent Config
  config : List ℤ → Except PyError Config
  fallback : SensitiveComponentManager → EmbeddingM Unit
  record_reset : ∀ scm, record scm.reset = (record scm).reset
  record_updateTerminate : ∀ scm, record scm.updateTerminate = (record scm).updateTerminate
  record_setConfig : ∀ scm scm' e, scm.setConfig e = .ok scm' →
    (record scm).unlessTerminated ((record scm).setConfig <$> config e) = .ok (record scm')
  record_update : ∀ scm scm' d, scm.update d = .ok scm' →
    (record scm).unlessTerminated ((record scm).update <$> getItem d bottleneck.name) =
      .ok (record scm')
  increaseOne_eq : ∀ mappings scm, (record scm).terminate = true →
    increaseOne mappings scm bottleneck.name = (do
      fallback scm
      return false)
  fallback_eq : ∀ scm e c, e.length = 22 → (record scm).best = .ok c →
    ∃ e', (fallback scm).run e = (.ok (), e') ∧ config e' = .ok c
  config_congr : ∀ e e', AgreeOn (· ∈ governed bottleneck.name) e e' → config e = config e'

lemma listItem_congr {P : ℕ → Prop} {e e' : List ℤ} (h : AgreeOn P e e') {p : ℕ} (hp : P p) :
    listItem e p = listItem e' p := by
  rw [listItem, listItem, h.entry p hp]

lemma run_setAt_lt {p : ℕ} {e : List ℤ} (hp : p < e.length) (v : ℤ) :
    (setAt p v).run e = (.ok (), e.set p v) := by
  rw [run_setAt, if_pos hp]

/-- Two different entries are set. -/
lemma run_setAt_pair (p p' : ℕ) {e : List ℤ} (hp : p < e.length) (hp' : p' < e.length)
    (hne : p' ≠ p) (c : ℤ × ℤ) :
    ∃ e', (do setAt p c.1; setAt p' c.2 : EmbeddingM Unit).run e = (.ok (), e') ∧
      listItem e' p = .ok c.1 ∧ listItem e' p' = .ok c.2 ∧ e'.length = e.length ∧
      ∀ j, j ≠ p → j ≠ p' → listItem e' j = listItem e j := by
  have hp'' : p' < (e.set p c.1).length := by rwa [List.length_set]
  refine ⟨(e.set p c.1).set p' c.2, ?_, ?_, ?_, ?_, fun j hj hj' => ?_⟩
  · rw [Exec.run_bind_ok (run_setAt_lt hp _), run_setAt_lt hp'']
  · rw [listItem, List.getElem?_set_ne hne, List.getElem?_set_self hp]
  · rw [listItem, List.getElem?_set_self hp'']
  · rw [List.length_set, List.length_set]
  · rw [listItem, listItem, List.getElem?_set_ne hj'.symm, List.getElem?_set_ne hj.symm]

def icachePart [Averaging] : Part (ℤ × ℤ) where
  bottleneck := .icacheMiss
  record := SensitiveComponentManager.icache
  config := icacheConfig
  fallback := fallbackIcacheConfig
  record_reset _ := rfl
  record_updateTerminate _ := rfl
  record_setConfig scm scm' e h := by
    obtain ⟨bp, -, h⟩ := bind_eq_ok h
    obtain ⟨icache, hi, h⟩ := bind_eq_ok h
    obtain ⟨dcache, -, h⟩ := bind_eq_ok h
    obtain rfl := Except.ok.inj h
    exact hi
  record_update scm scm' d h := by
    obtain ⟨bp, -, h⟩ := bind_eq_ok h
    obtain ⟨icache, hi, h⟩ := bind_eq_ok h
    obtain ⟨dcache, -, h⟩ := bind_eq_ok h
    obtain rfl := Except.ok.inj h
    exact hi
  increaseOne_eq mappings scm h := if_pos ⟨rfl, h⟩
  fallback_eq scm e c hlen hbest := by
    obtain ⟨e', hrun, hsize, hassoc, -⟩ := run_setAt_pair 18 19 (hlen ▸ (by decide : 18 < 22))
      (hlen ▸ (by decide : 19 < 22)) (by decide) c
    refine ⟨e', ?_, ?_⟩
    · rw [fallbackIcacheConfig, hbest]
      exact hrun
    · rw [icacheConfig, hsize, hassoc]
      rfl
  config_congr e e' h := by
    rw [icacheConfig, icacheConfig, listItem_congr h (p := 18) (by decide),
      listItem_congr h (p := 19) (by decide)]

def dcachePart [Averaging] : Part (ℤ × ℤ) where
  bottleneck := .dcacheMiss
  record := SensitiveComponentManager.dcache
  config := dcacheConfig
  fallback := fallbackDcacheConfig
  record_reset _ := rfl
  record_updateTerminate _ := rfl
  record_setConfig scm scm' e h := by
    obtain ⟨bp, -, h⟩ := bind_eq_ok h
    obtain ⟨icache, -, h⟩ := bind_eq_ok h
    obtain ⟨dcache, hd, h⟩ := bind_eq_ok h
    obtain rfl := Except.ok.inj h
    exact hd
  record_update scm scm' d h := by
    obtain ⟨bp, -, h⟩ := bind_eq_ok h
    obtain ⟨icache, -, h⟩ := bind_eq_ok h
    obtain ⟨dcache, hd, h⟩ := bind_eq_ok h
    obtain rfl := Except.ok.inj h
    exact hd
  increaseOne_eq mappings scm h :=
    (if_neg fun h => absurd h.1 (by decide)).trans (if_pos ⟨rfl, h⟩)
  fallback_eq scm e c hlen hbest := by
    obtain ⟨e', hrun, hsize, hassoc, -⟩ := run_setAt_pair 20 21 (hlen ▸ (by decide : 20 < 22))
      (hlen ▸ (by decide : 21 < 22)) (by decide) c
    refine ⟨e', ?_, ?_⟩
    · rw [fallbackDcacheConfig, hbest]
      exact hrun
    · rw [dcacheConfig, hsize, hassoc]
      rfl
  config_congr e e' h := by
    rw [dcacheConfig, dcacheConfig, listItem_congr h (p := 20) (by decide),
      listItem_congr h (p := 21) (by decide)]

def bpPart [Averaging] : Part (ℤ × ℤ × ℤ) where
  bottleneck := .bpMiss
  record := SensitiveComponentManager.bp
  config := bpConfig
  fallback := fallbackBpConfig
  record_reset _ := rfl
  record_updateTerminate _ := rfl
  record_setConfig scm scm' e h := by
    obtain ⟨bp, hb, h⟩ := bind_eq_ok h
    obtain ⟨icache, -, h⟩ := bind_eq_ok h
    obtain ⟨dcache, -, h⟩ := bind_eq_ok h
    obtain rfl := Except.ok.inj h
    exact hb
  record_update scm scm' d h := by
    obtain ⟨bp, hb, h⟩ := bind_eq_ok h
    obtain ⟨icache, -, h⟩ := bind_eq_ok h
    obtain ⟨dcache, -, h⟩ := bind_eq_ok h
    obtain rfl := Except.ok.inj h
    exact hb
  increaseOne_eq mappings scm h :=
    (if_neg fun h => absurd h.1 (by decide)).trans
      ((if_neg fun h => absurd h.1 (by decide)).trans (if_pos ⟨rfl, h⟩))
  fallback_eq scm e c hlen hbest := by
    have hlp : 3 < e.length := hlen ▸ (by decide)
    obtain ⟨e', hrun, hgp, hcp, -, hother⟩ := run_setAt_pair (e := e.set 3 c.1) 4 5
      (by rw [List.length_set, hlen]; decide) (by rw [List.length_set, hlen]; decide) (by decide)
      c.2
    refine ⟨e', ?_, ?_⟩
    · rw [fallbackBpConfig, hbest]
      exact (Exec.run_bind_ok (run_setAt_lt hlp _) _).trans hrun
    · have hfirst : listItem e' 3 = .ok c.1 := by
        rw [hother 3 (by decide) (by decide), listItem, List.getElem?_set_self hlp]
      rw [bpConfig, hfirst, hgp, hcp]
      rfl
  config_congr e e' h := by
    rw [bpConfig, bpConfig, listItem_congr h (p := 3) (by decide),
      listItem_congr h (p := 4) (by decide), listItem_congr h (p := 5) (by decide)]

/-! ### One iteration -/

/-- The contributions that are measured on a design. -/
def measured (rpts : List (Option Text)) : Except PyError (Dict String ℚ) := do
  let btnks ← rpts.reduceOption.mapM readReport
  calcBottleneckContribution btnks

/-- The solutions after the evaluation of a design, and the last improvement. -/
def evaluated [Averaging] (env : Environment) (i : ℕ) (st : SearchState) (e : List ℤ) (pppa : ℚ) :
    Solutions × ℕ :=
  let results := getSimulationResults (env.ppa i)
  improve { st.solutions with trace := st.solutions.trace ++ [⟨e, results, pppa⟩] } st.lastUpdate i
    st.idx results pppa

/-- Iteration `i` evaluates the design `e`, which is analysed and changed to `e'`. -/
structure Iteration [Averaging] (s : O3CPUDesignSpace) (topK : ℤ) (env : Environment) (i : ℕ)
    (st : SearchState) (e e' : List ℤ) (pppa : ℚ) (l : List (String × ℚ))
    (scm₁ scm' : SensitiveComponentManager) (idx' : ℤ) : Prop where
  embedding : s.idxToEmbedding st.idx = .ok e
  ipc : (getSimulationResults (env.ppa i)).ipc ≠ 0
  metric : metric (getSimulationResults (env.ppa i)).ipc (getSimulationResults (env.ppa i)).power
    (getSimulationResults (env.ppa i)).area = .ok pppa
  contribution : getBottleneckContribution (env.analysis i) st.scm = .ok (l, scm₁)
  removal : (bottleneckRemoval s topK (env.sample i) scm₁ st.idx l).1 = .ok e'
  record : scm₁.updateTerminate.setConfig e' = .ok scm'
  idx : s.embeddingToIdx e' = .ok idx'

lemma of_getBottleneckContribution {rpts : List (Option Text)} {l : List (String × ℚ)}
    {scm scm₁ : SensitiveComponentManager}
    (h : getBottleneckContribution rpts scm = .ok (l, scm₁)) :
    ∃ d, measured rpts = .ok d ∧ scm.update d = .ok scm₁ ∧ l = summary d := by
  obtain ⟨btnks, hread, h⟩ := bind_eq_ok h
  obtain ⟨d, hd, h⟩ := bind_eq_ok h
  obtain ⟨scm', hscm, h⟩ := bind_eq_ok h
  obtain ⟨rfl, rfl⟩ := Prod.mk.inj (Except.ok.inj h)
  exact ⟨d, by rw [measured, hread, ok_bind, hd], hscm, rfl⟩

section Steps

variable [Averaging] {s : O3CPUDesignSpace} {settings : Settings} {env : Environment} {i : ℕ}
  {st st' : SearchState}

/-- A removal that returns has updated the flags. -/
lemma removal_snd {topK idx : ℤ} {sample : List String} {scm : SensitiveComponentManager}
    {l : List (String × ℚ)} {e' : List ℤ}
    (h : (bottleneckRemoval s topK sample scm idx l).1 = .ok e') :
    (bottleneckRemoval s topK sample scm idx l).2 = scm.updateTerminate := by
  unfold bottleneckRemoval at h ⊢
  split at h
  · cases h
  · rfl

lemma of_bottleneckAnalysis {topK idx : ℤ} {rpts : List (Option Text)} {sample : List String}
    {scm scm₂ : SensitiveComponentManager} {e' : List ℤ}
    (h : bottleneckAnalysis s topK rpts sample scm idx = .ok (e', scm₂)) :
    ∃ l scm₁, getBottleneckContribution rpts scm = .ok (l, scm₁) ∧
      (bottleneckRemoval s topK sample scm₁ idx l).1 = .ok e' ∧ scm₂ = scm₁.updateTerminate := by
  obtain ⟨⟨l, scm₁⟩, hl, h⟩ := bind_eq_ok h
  obtain ⟨e, he, h⟩ := bind_eq_ok h
  obtain ⟨rfl, rfl⟩ := Prod.mk.inj (Except.ok.inj h)
  exact ⟨l, scm₁, hl, he, removal_snd he⟩

/-- How an iteration ends whose simulation has not failed. -/
def outcome (settings : Settings) (i : ℕ) (scm' : SensitiveComponentManager) (idx' : ℤ)
    (r : Solutions × ℕ) : Flow Solutions SearchState :=
  if settings.earlyStopping ≤ i - r.2 then .leave r.1 else .next ⟨scm', idx', r.2, r.1⟩

/-- What an iteration does that returns. -/
lemma of_explorationBody {f : Flow Solutions SearchState}
    (h : explorationBody s settings env i st = .ok f)
    (hipc : (getSimulationResults (env.ppa i)).ipc ≠ 0) :
    ∃ e e' pppa l scm₁ scm' idx',
      Iteration s settings.topK env i st e e' pppa l scm₁ scm' idx' ∧
      f = outcome settings i scm' idx' (evaluated env i st e pppa) := by
  obtain ⟨e, he, h⟩ := bind_eq_ok h
  obtain ⟨pppa, hpppa, h⟩ := bind_eq_ok h
  dsimp only at h
  rw [if_neg hipc] at h
  obtain ⟨⟨e', scm₂⟩, hanalysis, h⟩ := bind_eq_ok h
  obtain ⟨scm', hscm, h⟩ := bind_eq_ok h
  obtain ⟨idx', hidx, hend⟩ := bind_eq_ok h
  obtain ⟨l, scm₁, hl, hremoval, rfl⟩ := of_bottleneckAnalysis hanalysis
  refine ⟨e, e', pppa, l, scm₁, scm', idx', ⟨he, hipc, hpppa, hl, hremoval, hscm, hidx⟩, ?_⟩
  by_cases hstop : settings.earlyStopping ≤ i - (evaluated env i st e pppa).2
  · rw [outcome, if_pos hstop]
    exact (Except.ok.inj ((if_pos hstop).symm.trans hend)).symm
  · rw [outcome, if_neg hstop]
    exact (Except.ok.inj ((if_neg hstop).symm.trans hend)).symm

/-- The last call of an iteration is the one that computes the next index. -/
lemma explorationBody_eq {e e' : List ℤ} {pppa : ℚ} {l : List (String × ℚ)}
    {scm₁ scm' : SensitiveComponentManager} (he : s.idxToEmbedding st.idx = .ok e)
    (hipc : (getSimulationResults (env.ppa i)).ipc ≠ 0)
    (hmetric : metric (getSimulationResults (env.ppa i)).ipc
      (getSimulationResults (env.ppa i)).power (getSimulationResults (env.ppa i)).area = .ok pppa)
    (hl : getBottleneckContribution (env.analysis i) st.scm = .ok (l, scm₁))
    (hremoval : (bottleneckRemoval s settings.topK (env.sample i) scm₁ st.idx l).1 = .ok e')
    (hrecord : scm₁.updateTerminate.setConfig e' = .ok scm') :
    explorationBody s settings env i st = (do
      let idx' ← s.embeddingToIdx e'
      return outcome settings i scm' idx' (evaluated env i st e pppa)) := by
  have hanalysis :
      bottleneckAnalysis s settings.topK (env.analysis i) (env.sample i) st.scm st.idx =
        .ok (e', scm₁.updateTerminate) := by
    rw [bottleneckAnalysis, hl, ok_bind]
    dsimp only
    rw [hremoval, removal_snd hremoval]
    rfl
  rw [explorationBody, he, ok_bind]
  dsimp only
  rw [hmetric, ok_bind, if_neg hipc, hanalysis, ok_bind]
  dsimp only
  rw [hrecord, ok_bind]
  refine bind_congr fun idx' => ?_
  rw [outcome]
  by_cases hstop : settings.earlyStopping ≤ i - (evaluated env i st e pppa).2
  · rw [if_pos hstop]
    exact if_pos hstop
  · rw [if_neg hstop]
    exact if_neg hstop

/-- How an iteration ends all of whose calls return. -/
lemma Iteration.explorationBody {e e' : List ℤ} {pppa : ℚ} {l : List (String × ℚ)}
    {scm₁ scm' : SensitiveComponentManager} {idx' : ℤ}
    (h : Iteration s settings.topK env i st e e' pppa l scm₁ scm' idx') :
    explorationBody s settings env i st =
      .ok (outcome settings i scm' idx' (evaluated env i st e pppa)) := by
  rw [explorationBody_eq h.embedding h.ipc h.metric h.contribution h.removal h.record, h.idx]
  rfl

/-- An iteration goes on only if the simulation has not failed. -/
lemma ipc_ne_zero_of_next (h : explorationBody s settings env i st = .ok (.next st')) :
    (getSimulationResults (env.ppa i)).ipc ≠ 0 := by
  intro hipc
  obtain ⟨e, -, h⟩ := bind_eq_ok h
  obtain ⟨pppa, -, h⟩ := bind_eq_ok h
  dsimp only at h
  rw [if_pos hipc] at h
  cases h

lemma of_explorationBody_next (h : explorationBody s settings env i st = .ok (.next st')) :
    ∃ e e' pppa l scm₁, Iteration s settings.topK env i st e e' pppa l scm₁ st'.scm st'.idx ∧
      (st'.solutions, st'.lastUpdate) = evaluated env i st e pppa ∧
      (i : ℤ) - st'.lastUpdate < settings.earlyStopping := by
  obtain ⟨e, e', pppa, l, scm₁, scm', idx', hiter, hf⟩ :=
    of_explorationBody h (ipc_ne_zero_of_next h)
  rw [outcome] at hf
  split_ifs at hf with hstop
  obtain rfl := Flow.next.inj hf
  exact ⟨e, e', pppa, l, scm₁, hiter, rfl, not_le.mp hstop⟩

end Steps

/-! ### One record -/

section Record

variable {Config : Type} {D : ℕ → Config → Prop} {M : ℕ → ℚ → Prop} {i : ℕ}
  {r r' : SensitiveComponent Config}

/-- The record at the beginning of iteration `i`: the `k`-th configuration satisfies `D k`, the
`k`-th contribution satisfies `M k`, and the last contribution is missing unless the component is
terminated. -/
structure Tracks (D : ℕ → Config → Prop) (M : ℕ → ℚ → Prop) (i : ℕ)
    (r : SensitiveComponent Config) : Prop where
  configs : ∀ k c, r.configs[k]? = some c → D k c
  contribution : ∀ k q, r.contribution[k]? = some q → M k q
  active : r.terminate = false → r.configs.length = i + 1 ∧ r.contribution.length = i
  terminated : r.terminate = true → r.Sound

/-- The record after the analysis of iteration `i`. -/
structure Filled (D : ℕ → Config → Prop) (M : ℕ → ℚ → Prop) (i : ℕ)
    (r : SensitiveComponent Config) : Prop where
  configs : ∀ k c, r.configs[k]? = some c → D k c
  contribution : ∀ k q, r.contribution[k]? = some q → M k q
  sound : r.Sound
  active : r.terminate = false → r.configs.length = i + 1

lemma of_unlessTerminated {α : Type} {f : α → SensitiveComponent Config} {x : Except PyError α}
    (h : r.unlessTerminated (f <$> x) = .ok r') :
    r.terminate = true ∧ r' = r ∨ r.terminate = false ∧ ∃ a, x = .ok a ∧ r' = f a := by
  unfold SensitiveComponent.unlessTerminated at h
  split_ifs at h with hterm
  · exact .inl ⟨hterm, (Except.ok.inj h).symm⟩
  · refine .inr ⟨Bool.of_not_eq_true hterm, ?_⟩
    cases x with
    | error e => cases h
    | ok a => exact ⟨a, rfl, (Except.ok.inj h).symm⟩

/-- A component stays terminated. -/
lemma updateTerminate_terminate [Averaging] (h : r.terminate = true) :
    r.updateTerminate.terminate = true := by
  unfold SensitiveComponent.updateTerminate
  split_ifs
  · exact h
  · split
    · split_ifs
      · exact h
      · rfl
    · rfl

lemma getElem?_append_singleton {α : Type} {l : List α} {a b : α} {k : ℕ}
    (h : (l ++ [a])[k]? = some b) : l[k]? = some b ∨ k = l.length ∧ b = a := by
  rcases lt_or_ge k l.length with hlt | hge
  · rw [List.getElem?_append_left hlt] at h
    exact .inl h
  · rw [List.getElem?_append_right hge] at h
    obtain ⟨hk, hb⟩ := List.getElem?_eq_some_iff.mp h
    rw [List.length_singleton] at hk
    have hzero : k - l.length = 0 := by omega
    simp only [hzero, List.getElem_cons_zero] at hb
    exact .inr ⟨by omega, hb.symm⟩

/-- The analysis completes the record. -/
lemma Tracks.update {x : Except PyError ℚ} (h : Tracks D M i r)
    (hr : r.unlessTerminated (r.update <$> x) = .ok r') (hM : ∀ q, x = .ok q → M i q) :
    Filled D M i r' := by
  rcases of_unlessTerminated hr with ⟨hterm, rfl⟩ | ⟨hterm, q, hq, rfl⟩
  · exact ⟨h.configs, h.contribution, h.terminated hterm, fun hfalse => by simp [hterm] at hfalse⟩
  · obtain ⟨hconfigs, hcontribution⟩ := h.active hterm
    refine ⟨h.configs, fun k q' hk => ?_, ⟨?_, List.concat_ne_nil _ _⟩, fun _ => hconfigs⟩
    · rcases getElem?_append_singleton hk with hk | ⟨rfl, rfl⟩
      · exact h.contribution k q' hk
      · exact hcontribution.symm ▸ hM _ hq
    · change (r.contribution ++ [q]).length = r.configs.length
      rw [List.length_append, hconfigs, hcontribution]
      rfl

lemma Filled.updateTerminate [Averaging] (h : Filled D M i r) : Filled D M i r.updateTerminate where
  configs := by simpa using h.configs
  contribution := by simpa using h.contribution
  sound := by simpa [SensitiveComponent.Sound] using h.sound
  active hterm := by
    rw [updateTerminate_configs]
    refine h.active (Bool.of_not_eq_true fun htrue => ?_)
    rw [updateTerminate_terminate htrue] at hterm
    cases hterm

/-- The configuration of the next design is recorded. -/
lemma Filled.setConfig {x : Except PyError Config} (h : Filled D M i r)
    (hr : r.unlessTerminated (r.setConfig <$> x) = .ok r') (hD : ∀ c, x = .ok c → D (i + 1) c) :
    Tracks D M (i + 1) r' := by
  rcases of_unlessTerminated hr with ⟨hterm, rfl⟩ | ⟨hterm, c, hc, rfl⟩
  · exact ⟨h.configs, h.contribution, fun hfalse => by simp [hterm] at hfalse, fun _ => h.sound⟩
  · have hlen := h.active hterm
    refine ⟨fun k c' hk => ?_, h.contribution, fun _ => ⟨?_, h.sound.1.trans hlen⟩, fun htrue => ?_⟩
    · rcases getElem?_append_singleton hk with hk | ⟨rfl, rfl⟩
      · exact h.configs k c' hk
      · exact hlen.symm ▸ hD _ hc
    · change (r.configs ++ [c]).length = i + 1 + 1
      rw [List.length_append, hlen]
      rfl
    · exact absurd (hterm.symm.trans htrue) (by decide)

/-- An empty record begins with the configuration of the first design. -/
lemma Tracks.init {x : Except PyError Config}
    (hr : r.reset.unlessTerminated (r.reset.setConfig <$> x) = .ok r')
    (hD : ∀ c, x = .ok c → D 0 c) : Tracks D M 0 r' := by
  rcases of_unlessTerminated hr with ⟨hterm, -⟩ | ⟨-, c, hc, rfl⟩
  · cases hterm
  · refine ⟨fun k c' hk => ?_, fun k q hk => ?_, fun _ => ⟨rfl, rfl⟩, fun htrue => ?_⟩
    · rcases getElem?_append_singleton hk with hk | ⟨rfl, rfl⟩
      · cases hk
      · exact hD _ hc
    · cases hk
    · cases htrue

/-- A sound record has a configuration with the least contribution. -/
lemma SensitiveComponent.Sound.exists_best (h : r.Sound) :
    ∃ (k : ℕ) (c : Config) (q : ℚ), r.best = .ok c ∧ r.configs[k]? = some c ∧
      r.contribution[k]? = some q ∧ ∀ q' ∈ r.contribution, q ≤ q' := by
  obtain ⟨least, hleast⟩ : ∃ least, r.contribution.min? = some least := by
    cases hmin : r.contribution.min? with
    | none => exact absurd (List.min?_eq_none_iff.mp hmin) h.2
    | some least => exact ⟨least, rfl⟩
  obtain ⟨hmem, hle⟩ := List.min?_eq_some_iff.mp hleast
  have hlt : r.contribution.findIdx (· = least) < r.contribution.length :=
    List.findIdx_lt_length.mpr ⟨least, hmem, by simp⟩
  have hget : r.contribution[r.contribution.findIdx (· = least)] = least := by
    simpa using List.findIdx_getElem (w := hlt)
  have hlt' : r.contribution.findIdx (· = least) < r.configs.length := h.1 ▸ hlt
  refine ⟨_, r.configs[r.contribution.findIdx (· = least)], least, ?_,
    List.getElem?_eq_getElem hlt', List.getElem?_eq_some_iff.mpr ⟨hlt, hget⟩, hle⟩
  rw [best, if_neg (not_not.mpr h.1), hleast]
  simp only [listItem, List.getElem?_eq_getElem hlt']

end Record

/-! ### A whole search -/

/-- A space over the parameters in which an index stands for the design that it is computed from. -/
structure Indexed (s : O3CPUDesignSpace) : Prop where
  length : ∀ i e, s.idxToEmbedding i = .ok e → e.length = 22
  embedding : ∀ e i, e.length = 22 → s.embeddingToIdx e = .ok i → s.idxToEmbedding i = .ok e

lemma idx_of_idxToEmbedding {s : O3CPUDesignSpace} {i : ℤ} {e : List ℤ}
    (h : s.idxToEmbedding i = .ok e) : 1 ≤ i ∧ i ≤ s.size := by
  obtain ⟨vec, hvec, -⟩ := bind_eq_ok h
  obtain ⟨_, hvalid, -⟩ := bind_eq_ok hvec
  unfold O3CPUDesignSpace.valid at hvalid
  split_ifs at hvalid with hidx
  exact hidx

lemma Explorable.indexed {s : O3CPUDesignSpace} (h : Explorable s) : Indexed s where
  length i e he := by
    obtain ⟨hpos, hle⟩ := idx_of_idxToEmbedding he
    obtain ⟨e', he', hfits⟩ := h.fits_of_idx hpos hle
    obtain rfl : e = e' := Except.ok.inj (he.symm.trans he')
    exact hfits.length_eq
  embedding e i hlen hi := by
    obtain ⟨i', -, -, hi', hidx⟩ := h.idx_of_fits (h.fits_of_embeddingToIdx hlen hi)
    obtain rfl : i = i' := Except.ok.inj (hi.symm.trans hi')
    exact hidx

section Run

variable [Averaging] {Config : Type} (c : Part Config) (s : O3CPUDesignSpace) (settings : Settings)
  (env : Environment) (st₀ : SearchState)

/-- The design that is evaluated in iteration `k` has the configuration. -/
def Designed (k : ℕ) (config : Config) : Prop :=
  ∃ st e, Loop.Visits (explorationBody s settings env) st₀ k st ∧
    s.idxToEmbedding st.idx = .ok e ∧ c.config e = .ok config

/-- The contribution is measured in iteration `k`. -/
def Measures (k : ℕ) (q : ℚ) : Prop :=
  ∃ d, measured (env.analysis k) = .ok d ∧ getItem d c.bottleneck.name = .ok q

/-- What is written back when the component is set back: the assertion on its record holds, the
`k`-th contribution was measured on the design with the `k`-th configuration, and a configuration
with the least contribution is restored. -/
structure FallsBack (scm : SensitiveComponentManager) : Prop where
  length : (c.record scm).contribution.length = (c.record scm).configs.length
  nonempty : (c.record scm).contribution ≠ []
  measured : ∀ (k : ℕ) (config : Config) (q : ℚ), (c.record scm).configs[k]? = some config →
    (c.record scm).contribution[k]? = some q →
      Designed c s settings env st₀ k config ∧ Measures c env k q
  restores : ∃ (k : ℕ) (config : Config) (q : ℚ), (c.record scm).configs[k]? = some config ∧
    (c.record scm).contribution[k]? = some q ∧ (∀ q' ∈ (c.record scm).contribution, q ≤ q') ∧
    ∀ e, e.length = 22 → ∃ e', (c.fallback scm).run e = (.ok (), e') ∧ c.config e' = .ok config

/-- The record of a component in iteration `i`. -/
structure Kept (i : ℕ) (st : SearchState) : Prop where
  fallsBack : ∀ l scm₁, getBottleneckContribution (env.analysis i) st.scm = .ok (l, scm₁) →
    (c.record scm₁.updateTerminate).terminate = true →
      FallsBack c s settings env st₀ scm₁.updateTerminate
  stays : ∀ l scm₁, getBottleneckContribution (env.analysis i) st.scm = .ok (l, scm₁) →
    ((c.record st.scm).terminate = true → (c.record scm₁.updateTerminate).terminate = true) ∧
    ((c.record scm₁.updateTerminate).terminate = true → ∀ j st', i < j →
      Loop.Visits (explorationBody s settings env) st₀ j st' → (c.record st'.scm).terminate = true)

variable {c s settings env st₀}

/-- The next index stands for the design that the removal has chosen. -/
lemma Iteration.idxToEmbedding {topK idx' : ℤ} {i : ℕ} {st : SearchState} {e e' : List ℤ} {pppa : ℚ}
    {l : List (String × ℚ)} {scm₁ scm' : SensitiveComponentManager} (h : Indexed s)
    (hiter : Iteration s topK env i st e e' pppa l scm₁ scm' idx') :
    s.idxToEmbedding idx' = .ok e' := by
  obtain ⟨e₁, hup, hdown⟩ := removal_inv hiter.embedding hiter.removal
  have hlen : e'.length = 22 :=
    (length_decrease hdown).trans ((length_increase hup).trans (h.length _ _ hiter.embedding))
  exact h.embedding e' idx' hlen hiter.idx

/-- The analysis of iteration `i` completes the records. -/
lemma filled_of_tracks {i : ℕ} {st : SearchState} {l : List (String × ℚ)}
    {scm₁ : SensitiveComponentManager}
    (hl : getBottleneckContribution (env.analysis i) st.scm = .ok (l, scm₁))
    (htracks : Tracks (Designed c s settings env st₀) (Measures c env) i (c.record st.scm)) :
    Filled (Designed c s settings env st₀) (Measures c env) i (c.record scm₁) := by
  obtain ⟨d, hd, hupdate, -⟩ := of_getBottleneckContribution hl
  exact htracks.update (c.record_update _ _ _ hupdate) fun q hq => ⟨d, hd, hq⟩

/-- The records after the flags have been updated. -/
lemma Tracks.filled {i : ℕ} {st : SearchState} {l : List (String × ℚ)}
    {scm₁ : SensitiveComponentManager}
    (htracks : Tracks (Designed c s settings env st₀) (Measures c env) i (c.record st.scm))
    (hl : getBottleneckContribution (env.analysis i) st.scm = .ok (l, scm₁)) :
    Filled (Designed c s settings env st₀) (Measures c env) i (c.record scm₁.updateTerminate) := by
  rw [c.record_updateTerminate]
  exact (filled_of_tracks hl htracks).updateTerminate

/-- The records are complete in every iteration. -/
lemma tracks_of_visits (h : Indexed s) {scm : SensitiveComponentManager} {draw : ℕ → ℕ}
    {start : ℤ} (hinit : explorationInit s scm draw start = .ok st₀) {i : ℕ} {st : SearchState}
    (hv : Loop.Visits (explorationBody s settings env) st₀ i st) :
    Tracks (Designed c s settings env st₀) (Measures c env) i (c.record st.scm) := by
  refine hv.invariant (I := fun i st =>
    Tracks (Designed c s settings env st₀) (Measures c env) i (c.record st.scm)) ?_ ?_
  · obtain ⟨idx, -, hinit⟩ := bind_eq_ok hinit
    obtain ⟨e, he, hinit⟩ := bind_eq_ok hinit
    obtain ⟨scm', hscm, hinit⟩ := bind_eq_ok hinit
    obtain rfl := Except.ok.inj hinit
    have hrecord := c.record_setConfig _ _ _ hscm
    rw [c.record_reset] at hrecord
    exact .init hrecord fun config hconfig => ⟨_, e, .start, he, hconfig⟩
  · intro i st st' hv htracks hbody
    obtain ⟨e, e', pppa, l, scm₁, hiter, -⟩ := of_explorationBody_next hbody
    refine (htracks.filled hiter.contribution).setConfig
      (c.record_setConfig _ _ _ hiter.record) fun config hconfig => ?_
    exact ⟨st', e', hv.next hbody, hiter.idxToEmbedding h, hconfig⟩

/-- A component that is terminated in an iteration is terminated in the next one. -/
lemma terminate_of_next {i : ℕ} {st st' : SearchState}
    (hbody : explorationBody s settings env i st = .ok (.next st')) {l : List (String × ℚ)}
    {scm₁ : SensitiveComponentManager}
    (hl : getBottleneckContribution (env.analysis i) st.scm = .ok (l, scm₁))
    (hterm : (c.record scm₁.updateTerminate).terminate = true) :
    c.record st'.scm = c.record scm₁.updateTerminate := by
  obtain ⟨e, e', pppa, l', scm', hiter, -⟩ := of_explorationBody_next hbody
  obtain ⟨-, rfl⟩ := Prod.mk.inj (Except.ok.inj (hiter.contribution.symm.trans hl))
  rcases of_unlessTerminated (c.record_setConfig _ _ _ hiter.record) with ⟨-, heq⟩ | ⟨hfalse, -⟩
  · exact heq
  · exact absurd (hfalse.symm.trans hterm) (by decide)

/-- The analysis leaves a terminated component alone. -/
lemma record_of_terminate {i : ℕ} {st : SearchState} {l : List (String × ℚ)}
    {scm₁ : SensitiveComponentManager}
    (hl : getBottleneckContribution (env.analysis i) st.scm = .ok (l, scm₁))
    (hterm : (c.record st.scm).terminate = true) :
    (c.record scm₁.updateTerminate).terminate = true := by
  obtain ⟨d, -, hupdate, -⟩ := of_getBottleneckContribution hl
  rw [c.record_updateTerminate]
  rcases of_unlessTerminated (c.record_update _ _ _ hupdate) with ⟨-, heq⟩ | ⟨hfalse, -⟩
  · exact updateTerminate_terminate (heq ▸ hterm)
  · exact absurd (hfalse.symm.trans hterm) (by decide)

/-- A component stays terminated until the end of the search. -/
lemma terminate_of_visits {i j : ℕ} {st st' : SearchState}
    (hv : Loop.Visits (explorationBody s settings env) st₀ i st)
    (hv' : Loop.Visits (explorationBody s settings env) st₀ j st') (hij : i ≤ j)
    (hterm : (c.record st.scm).terminate = true) : (c.record st'.scm).terminate = true := by
  induction hv' with
  | start =>
    obtain rfl := Nat.le_zero.mp hij
    obtain rfl := hv.unique .start
    exact hterm
  | @next j st' st'' hv' hbody ih =>
    rcases Nat.lt_or_eq_of_le hij with hlt | rfl
    · obtain ⟨e, e', pppa, l, scm₁, hiter, -⟩ := of_explorationBody_next hbody
      have hterm' := record_of_terminate hiter.contribution (ih (Nat.lt_succ_iff.mp hlt))
      rw [terminate_of_next hbody hiter.contribution hterm']
      exact hterm'
    · obtain rfl := hv.unique (hv'.next hbody)
      exact hterm

lemma Filled.fallsBack {i : ℕ} {scm : SensitiveComponentManager}
    (h : Filled (Designed c s settings env st₀) (Measures c env) i (c.record scm)) :
    FallsBack c s settings env st₀ scm where
  length := h.sound.1
  nonempty := h.sound.2
  measured k config q hconfig hq := ⟨h.configs k config hconfig, h.contribution k q hq⟩
  restores := by
    obtain ⟨k, config, q, hbest, hconfig, hq, hle⟩ := h.sound.exists_best
    exact ⟨k, config, q, hconfig, hq, hle, fun e hlen => c.fallback_eq scm e config hlen hbest⟩

/-- The record of a component in any iteration of a search. -/
lemma kept_of_visits (c : Part Config) (h : Indexed s) {scm : SensitiveComponentManager}
    {draw : ℕ → ℕ} {start : ℤ} (hinit : explorationInit s scm draw start = .ok st₀) {i : ℕ}
    {st : SearchState} (hv : Loop.Visits (explorationBody s settings env) st₀ i st) :
    Kept c s settings env st₀ i st where
  fallsBack l scm₁ hl _ := ((tracks_of_visits h hinit hv).filled hl).fallsBack
  stays l scm₁ hl := by
    refine ⟨record_of_terminate hl, fun hterm j st' hij hv' => ?_⟩
    -- the iteration `i` goes on to the next one, since `j` comes later
    obtain ⟨st'', hv''⟩ := hv'.before (Nat.succ_le_of_lt hij)
    cases hv'' with
    | next hvi hbody =>
      obtain rfl := hv.unique hvi
      refine terminate_of_visits (hv.next hbody) hv' hij ?_
      rw [terminate_of_next hbody hl hterm]
      exact hterm

end Run

/-! ### The search of a small space -/

/-- The shares of a path that waits for nothing but the instruction cache. -/
def fetchShares (base icache : ℤ) : Dict String ℚ where
  items := fetchContribution (base / (base + icache)) (icache / (base + icache))
  nodup := by
    rw [fetchContribution, List.map_map]
    exact (List.map_id bottleneck).symm ▸ (by decide : bottleneck.Nodup)

lemma pathLength_fetchDelays (base icache : ℤ) :
    pathLength (fetchDelays base icache) = base + icache := by
  simp [pathLength, fetchDelays, bottleneck, Bottleneck.name]

lemma measured_fetch {base icache : ℤ} (hpos : 0 < base + icache) :
    measured [some (delayReport (fetchDelays base icache))] = .ok (fetchShares base icache) := by
  have hread : [delayReport (fetchDelays base icache)].mapM readReport = .ok [_] :=
    mapM_eq_ok (.cons (readReport_delayReport _) .nil)
  have hcomplete := complete_delays (fetchDelays base icache)
    (by rwa [pathLength_fetchDelays])
  obtain ⟨d, hd, hitems⟩ := calcBottleneckContribution_eq (List.cons_ne_nil _ [])
    (List.forall_mem_singleton.mpr hcomplete)
  have hd' : d = fetchShares base icache := by
    set btnk :=
      (delays (fetchDelays base icache)).set "length" (pathLength (fetchDelays base icache))
    have hshare : ∀ name ∈ bottleneck, (name, share [btnk] name) =
        (name, if name = Bottleneck.base.name then (base / (base + icache) : ℚ)
          else if name = Bottleneck.icacheMiss.name then icache / (base + icache) else 0) := by
      intro name hname
      rw [share, List.map_singleton, List.sum_singleton, ratio, count_delays _ hname, count,
        Dict.get?_set_self, Option.getD_some, pathLength_fetchDelays, fetchDelays]
      split_ifs <;> simp
    exact Dict.ext_items (hitems.trans (List.map_congr_left hshare))
  have hreduce : [some (delayReport (fetchDelays base icache))].reduceOption =
      [delayReport (fetchDelays base icache)] := rfl
  rw [measured, hreduce, hread, ok_bind, hd, hd']

/-- The shares are sorted. -/
lemma summary_fetchShares {base icache : ℤ} (hnonneg : 0 ≤ icache) (hle : icache ≤ base)
    (hpos : 0 < base) : summary (fetchShares base icache) = (fetchShares base icache).items := by
  have hsum : (0 : ℚ) ≤ base + icache := by
    exact_mod_cast add_nonneg hpos.le hnonneg
  have hranked : Ranked (fetchShares base icache).items :=
    ranked_fetchContribution (div_nonneg (by exact_mod_cast hnonneg) hsum)
      (div_le_div_of_nonneg_right (by exact_mod_cast hle) hsum)
  exact List.mergeSort_of_pairwise (hranked.sorted.imp fun h => decide_eq_true h)

/-- The analysis of a design that waits for nothing but the instruction cache. -/
lemma getBottleneckContribution_fetch {base icache : ℤ} {scm scm₁ : SensitiveComponentManager}
    (hnonneg : 0 ≤ icache) (hle : icache ≤ base) (hpos : 0 < base)
    (hscm : scm.update (fetchShares base icache) = .ok scm₁) :
    getBottleneckContribution [some (delayReport (fetchDelays base icache))] scm =
      .ok ((fetchShares base icache).items, scm₁) := by
  obtain ⟨btnks, hread, hcalc⟩ :=
    bind_eq_ok (measured_fetch (add_pos_of_pos_of_nonneg hpos hnonneg))
  rw [getBottleneckContribution, hread, ok_bind, hcalc, ok_bind, hscm, ok_bind,
    summary_fetchShares hnonneg hle hpos]
  rfl

/-- A search that begins with 32 KB of instruction cache, which is enlarged once. The second design
waits longer for the cache than the first one, and the third one does not wait at all. -/
def fetchSearch : Environment where
  ppa _ := [some ⟨1, 1, 1, 1, by decide, by decide⟩]
  analysis i := [some (delayReport (match i with
    | 0 => fetchDelays 9 1
    | 1 => fetchDelays 8 2
    | _ => fetchDelays 10 0))]
  sample i := if i < 2 then [Bottleneck.rob.name] else [Bottleneck.icacheMiss.name]

def fetchSettings : Settings := ⟨3, 10, 1⟩

/-- The state before the first iteration. -/
def fetchStart : SearchState where
  scm := ⟨⟨false, [(1, 1, 1)], [], some 0⟩, ⟨false, [(32, 1)], [], some 0⟩,
    ⟨false, [(1, 4)], [], some 0⟩⟩
  idx := 10
  lastUpdate := 0
  solutions := ⟨[], 0, none, 0⟩

/-- The design of the first iteration. -/
def fetchDesign : List ℤ :=
  [1, 1, 1, 1, 1, 1, 1, 1, 48, 1, 1, 1, 1, 1, 1, 1, 1, 1, 32, 1, 1, 4]

/-- The state before the second iteration. The cache is enlarged, and the reorder buffer shrinks. -/
def fetchNext : SearchState where
  scm := ⟨⟨false, [(1, 1, 1), (1, 1, 1)], [0], some 0⟩,
    ⟨false, [(32, 1), (64, 1)], [1 / 10], some (1 / 10)⟩,
    ⟨false, [(1, 4), (1, 4)], [0], some 0⟩⟩
  idx := 11
  lastUpdate := 0
  solutions := ⟨[⟨fetchDesign, ⟨1, 1, 1, 1⟩, 1⟩], 1, some ⟨1, 1, 1, 1⟩, 10⟩

/-- The records after the analysis of the first iteration. -/
def fetchMeasured : SensitiveComponentManager :=
  ⟨⟨false, [(1, 1, 1)], [0], some 0⟩, ⟨false, [(32, 1)], [1 / 10], some 0⟩,
    ⟨false, [(1, 4)], [0], some 0⟩⟩

/-- The analysis of the second iteration terminates the cache. -/
def fetchAnalysed : SensitiveComponentManager :=
  ⟨⟨false, [(1, 1, 1), (1, 1, 1)], [0, 0], some 0⟩,
    ⟨false, [(32, 1), (64, 1)], [1 / 10, 1 / 5], some (1 / 10)⟩,
    ⟨false, [(1, 4), (1, 4)], [0, 0], some 0⟩⟩

/-- The results of the calls of iteration `i`, which goes from `st` to `st'`. -/
def FetchStep (env : Environment) (base icache : ℤ) (i : ℕ) (st st' : SearchState) (e e' : List ℤ)
    (scm₁ : SensitiveComponentManager) : Prop :=
  (spaceOf cacheRows).idxToEmbedding st.idx = .ok e ∧
    (getSimulationResults (env.ppa i)).ipc ≠ 0 ∧
    metric (getSimulationResults (env.ppa i)).ipc (getSimulationResults (env.ppa i)).power
      (getSimulationResults (env.ppa i)).area = .ok 1 ∧
    st.scm.update (fetchShares base icache) = .ok scm₁ ∧
    (bottleneckRemoval (spaceOf cacheRows) 1 (env.sample i) scm₁ st.idx
      (fetchShares base icache).items).1 = .ok e' ∧
    scm₁.updateTerminate.setConfig e' = .ok st'.scm ∧
    (spaceOf cacheRows).embeddingToIdx e' = .ok st'.idx ∧
    outcome fetchSettings i st'.scm st'.idx (evaluated env i st e 1) = .next st'

instance (env : Environment) (base icache : ℤ) (i : ℕ) (st st' : SearchState) (e e' : List ℤ)
    (scm₁ : SensitiveComponentManager) :
    Decidable (FetchStep env base icache i st st' e e' scm₁) :=
  inferInstanceAs (Decidable (_ ∧ _))

section FetchStep

variable {env : Environment} {base icache : ℤ} {i : ℕ} {st st' : SearchState} {e e' : List ℤ}
  {scm₁ : SensitiveComponentManager}

lemma FetchStep.iteration (h : FetchStep env base icache i st st' e e' scm₁)
    (hl : getBottleneckContribution (env.analysis i) st.scm =
      .ok ((fetchShares base icache).items, scm₁)) :
    Iteration (spaceOf cacheRows) 1 env i st e e' 1 (fetchShares base icache).items scm₁ st'.scm
      st'.idx := by
  obtain ⟨he, hipc, hmetric, -, hremoval, hrecord, hidx, -⟩ := h
  exact ⟨he, hipc, hmetric, hl, hremoval, hrecord, hidx⟩

lemma FetchStep.visits (h : FetchStep env base icache i st st' e e' scm₁)
    (hl : getBottleneckContribution (env.analysis i) st.scm =
      .ok ((fetchShares base icache).items, scm₁)) {st₀ : SearchState}
    (hv : Loop.Visits (explorationBody (spaceOf cacheRows) fetchSettings env) st₀ i st) :
    Loop.Visits (explorationBody (spaceOf cacheRows) fetchSettings env) st₀ (i + 1) st' := by
  obtain ⟨-, -, -, -, -, -, -, hend⟩ := id h
  exact hv.next ((h.iteration hl).explorationBody.trans (congrArg Except.ok hend))

end FetchStep

lemma fetchStart_step : FetchStep fetchSearch 9 1 0 fetchStart fetchNext fetchDesign
    ((fetchDesign.set 8 32).set 18 64) fetchMeasured := by
  decide +kernel

lemma explorationInit_fetch (scm : SensitiveComponentManager) (draw : ℕ → ℕ) :
    explorationInit (spaceOf cacheRows) scm draw 10 = .ok fetchStart := by
  have hdesign : (spaceOf cacheRows).idxToEmbedding 10 = .ok fetchDesign := fetchStart_step.1
  have hstart : startIdx (spaceOf cacheRows) draw 10 = .ok 10 := by
    rw [startIdx, if_pos (by decide), getPipelineWidth, hdesign]
    rfl
  rw [explorationInit, hstart, ok_bind, hdesign]
  rfl

lemma contribution_fetchStart : getBottleneckContribution (fetchSearch.analysis 0) fetchStart.scm =
    .ok ((fetchShares 9 1).items, fetchMeasured) := by
  obtain ⟨-, -, -, hupdate, -⟩ := fetchStart_step
  exact getBottleneckContribution_fetch (by decide) (by decide) (by decide) hupdate

lemma visits_fetchNext :
    Loop.Visits (explorationBody (spaceOf cacheRows) fetchSettings fetchSearch) fetchStart 1
      fetchNext :=
  fetchStart_step.visits contribution_fetchStart .start

/-- The second iteration sets the cache back. -/
lemma fetchAnalysed_calls :
    fetchNext.scm.update (fetchShares 8 2) = .ok fetchAnalysed ∧
      (icachePart.record fetchAnalysed.updateTerminate).terminate = true ∧
      (icachePart.fallback fetchAnalysed.updateTerminate).run (fetchDesign.set 18 64) =
        (.ok (), fetchDesign) := by
  decide +kernel

lemma contribution_fetchNext : getBottleneckContribution (fetchSearch.analysis 1) fetchNext.scm =
    .ok ((fetchShares 8 2).items, fetchAnalysed) :=
  getBottleneckContribution_fetch (by decide) (by decide) (by decide) fetchAnalysed_calls.1

/-! ### The records in every search -/

/-- In every iteration of every search the components are set back to a configuration with the least
contribution, and they stay terminated. -/
theorem sensitiveComponents_kept [Averaging] (s : O3CPUDesignSpace) (h : Indexed s)
    (settings : Settings) (env : Environment) (scm : SensitiveComponentManager) (draw : ℕ → ℕ)
    (start : ℤ) (st₀ : SearchState) (hinit : explorationInit s scm draw start = .ok st₀) (i : ℕ)
    (st : SearchState) (hv : Loop.Visits (explorationBody s settings env) st₀ i st) :
    Kept bpPart s settings env st₀ i st ∧ Kept icachePart s settings env st₀ i st ∧
      Kept dcachePart s settings env st₀ i st :=
  ⟨kept_of_visits bpPart h hinit hv, kept_of_visits icachePart h hinit hv,
    kept_of_visits dcachePart h hinit hv⟩

/-- The instruction cache falls back to the 32 KB of the first design. -/
theorem sensitiveComponents_kept_fetch :
    (icachePart.record fetchAnalysed.updateTerminate).terminate = true ∧
      (icachePart.fallback fetchAnalysed.updateTerminate).run (fetchDesign.set 18 64) =
        (.ok (), fetchDesign) ∧
      FallsBack icachePart (spaceOf cacheRows) fetchSettings fetchSearch fetchStart
        fetchAnalysed.updateTerminate := by
  obtain ⟨-, hterm, hfallback⟩ := fetchAnalysed_calls
  have hkept := sensitiveComponents_kept (spaceOf cacheRows) explorable_cacheRows.indexed
    fetchSettings fetchSearch fetchStart.scm id 10 fetchStart (explorationInit_fetch _ _) 1
    fetchNext visits_fetchNext
  exact ⟨hterm, hfallback, hkept.2.1.fallsBack _ _ contribution_fetchNext hterm⟩

end ArchExplorer.Explorer
