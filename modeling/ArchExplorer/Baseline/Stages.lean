import Mathlib.Data.List.GetD
import Mathlib.Data.List.Perm.Subperm
import ArchExplorer.Baseline.Pruning

/-!
# The stages of ArchRanker

The sample is pruned by area, then by power, then by performance. Each stage ranks the designs that
are left and keeps at least one of them, so that the next one has something to rank. The counters
of the simulations stay in step, which is what the report asserts.
-/

namespace ArchExplorer.Baseline

open ArchExplorer.Lib ArchExplorer.Design

variable {env : Ranker} {designs : List (List ℤ)} {rankList : List ℕ} {metric : Metric}
  {fuel : ℕ} {st : Counters}

/-! ### The search -/

variable (env) in
/-- All designs of the array have an index. -/
def Simulable (designs : List (List ℤ)) : Prop :=
  ∀ row ∈ designs, ∃ idx, env.space.embeddingToIdx row = .ok idx

lemma arrayItem_getD {i : ℕ} (h : i < designs.length) :
    arrayItem designs i = .ok (designs.getD i []) := by
  rw [arrayItem, List.getElem?_eq_getElem h, List.getD_eq_getElem _ _ h]

lemma Simulable.measured (h : Simulable env designs)
    (hr : ∀ i ∈ rankList, i < designs.length) : Measured env designs rankList := by
  intro i hi
  have hmem : designs.getD i [] ∈ designs := by
    rw [List.getD_eq_getElem _ _ (hr i hi)]
    exact List.getElem_mem _
  obtain ⟨idx, hidx⟩ := h _ hmem
  refine ⟨(idx, env.results idx), ?_⟩
  rw [measure, arrayItem_getD (hr i hi), ok_bind, hidx]
  rfl

/-- Both searches keep a part of the ranking. -/
lemma search_ends (hm : Measured env designs rankList) (hne : rankList ≠ [])
    (hfuel : rankList.length ≤ fuel) (metric : Metric) (st : Counters) :
    ∃ selection st' kept,
      Ends env designs (search env designs fuel rankList metric) st kept selection st' ∧
      kept ≠ [] ∧ kept.Sublist rankList := by
  have hpos : 0 < rankList.length := List.length_pos_iff.mpr hne
  have hloop (metric : Metric) : ∃ selection st' kept,
      Ends env designs (binarySearchForPowerAndArea env designs fuel rankList metric) st kept
        selection st' ∧ kept ≠ [] ∧ kept.Sublist rankList := by
    obtain ⟨selection, st', n, hends, hn, hle, -⟩ :=
      powerAndAreaLoop_ends metric hm hpos le_rfl hfuel st
    refine ⟨selection, st', _, hends, ?_, List.take_sublist n rankList⟩
    rw [← List.length_pos_iff, List.length_take]
    omega
  cases metric with
  | power => exact hloop .power
  | area  => exact hloop .area
  | perf  =>
    obtain ⟨selection, st', n, hends, hn, -⟩ :=
      perfLoop_ends .perf hm hpos le_rfl hfuel st
    rw [sub_self] at hends
    refine ⟨selection, st', _, hends, ?_, List.drop_sublist n rankList⟩
    rw [← List.length_pos_iff, List.length_drop]
    omega

/-! ### One stage -/

/-- A single design becomes an array with one row. -/
lemma newaxis_select {selection : Selection} (hne : selection ≠ .none)
    (h : ∀ i ∈ selection.designs, i < designs.length) :
    ∃ array, (DesignArray.rows designs).select selection = .ok array ∧
      array.newaxis = .rows (selection.designs.map fun i => designs.getD i []) := by
  cases selection with
  | none   => exact absurd rfl hne
  | one i  =>
    refine ⟨.vector (designs.getD i []), ?_, rfl⟩
    rw [DesignArray.select, arrayItem_getD (h i (List.mem_singleton_self i))]
    rfl
  | many l =>
    have hmapM : l.mapM (arrayItem designs) = .ok (l.map fun i => designs.getD i []) := by
      apply mapM_eq_ok
      rw [List.forall₂_map_right_iff, List.forall₂_same]
      exact fun i hi => arrayItem_getD (h i hi)
    refine ⟨.rows (l.map fun i => designs.getD i []), ?_, rfl⟩
    rw [DesignArray.select, hmapM]
    rfl

lemma map_getD_range : (List.range designs.length).map (fun i => designs.getD i []) = designs := by
  refine List.ext_getElem (by simp) fun i _ hi => ?_
  rw [List.getElem_map, List.getElem_range, List.getD_eq_getElem _ _ hi]

/-- A stage keeps some of the designs, and simulates none but these. -/
lemma pruneStage_rows (hs : Simulable env designs) (hne : designs ≠ [])
    (hfuel : designs.length ≤ fuel) (model : Metric → List ℤ → ℚ) (metric : Metric)
    (st : Counters) :
    ∃ kept st', (pruneStage env model fuel (.rows designs) metric).run st =
        (.ok (.rows kept), st') ∧
      kept ≠ [] ∧ kept.Subperm designs ∧ Logs env designs st st' := by
  have hperm := constructRankList_perm (model metric) designs
  have hlt : ∀ i ∈ constructRankList (model metric) designs, i < designs.length :=
    fun i hi => List.mem_range.mp (hperm.mem_iff.mp hi)
  have hlen : (constructRankList (model metric) designs).length = designs.length := by
    rw [hperm.length_eq, List.length_range]
  have hranked : constructRankList (model metric) designs ≠ [] := by
    rwa [← List.length_pos_iff, hlen, List.length_pos_iff]
  obtain ⟨selection, st', kept, hends, hkept, hsub⟩ :=
    search_ends (hs.measured hlt) hranked (hlen.trans_le hfuel) metric st
  obtain rfl := hends.designs_eq
  obtain ⟨array, hselect, hrows⟩ :=
    newaxis_select hends.ne_none fun i hi => hlt i (hsub.subset hi)
  refine ⟨selection.designs.map fun i => designs.getD i [], st', ?_,
    mt List.map_eq_nil_iff.mp hkept, ?_, hends.logs⟩
  · rw [pruneStage, pruneDesignSpace_rows, Exec.run_bind_ok hends.run_eq, hselect, ← hrows]
    rfl
  · have hall := hperm.map fun i => designs.getD i []
    rw [map_getD_range] at hall
    exact (hsub.map _).subperm.trans hall.subperm

/-! ### All stages -/

/-- From a sample that is not empty, the three stages keep at least one design. Only designs of the
sample are simulated, and the counter and the list of the simulations agree. -/
theorem prune_returns (env : Ranker) (model : Metric → List ℤ → ℚ) (hs : env.space.Encodable)
    (hdesc : Described env.space.componentsMappings env.space.components) (idx : List ℤ)
    (hne : idx ≠ []) (hidx : ∀ i ∈ idx, 1 ≤ i ∧ i ≤ env.space.size) (fuel : ℕ)
    (hfuel : idx.length ≤ fuel) :
    ∃ designs kept st, idx.mapM env.space.idxToEmbedding = .ok designs ∧
      (prune env model fuel idx).run {} = (.ok (.rows kept), st) ∧
      kept ≠ [] ∧ kept.Subperm designs ∧
      st.simulationCount = st.exploredSet.length ∧ st.exploredSet ⊆ idx := by
  have htrip : ∀ i ∈ idx,
      ∃ e, env.space.idxToEmbedding i = .ok e ∧ env.space.embeddingToIdx e = .ok i :=
    fun i hi => hs.exists_embedding hdesc (hidx i hi).1 (hidx i hi).2
  choose! embedding hembedding hindex using htrip
  have hdesigns : idx.mapM env.space.idxToEmbedding = .ok (idx.map embedding) := by
    apply mapM_eq_ok
    rw [List.forall₂_map_right_iff, List.forall₂_same]
    exact hembedding
  -- what is left after a stage are designs of the sample
  have hstage {rows : List (List ℤ)} (hsub : rows.Subperm (idx.map embedding)) (hrows : rows ≠ [])
      (metric : Metric) (st : Counters) (hlog : Logged env (idx.map embedding) st) :
      ∃ kept st', (pruneStage env model fuel (.rows rows) metric).run st =
        (.ok (.rows kept), st') ∧ kept ≠ [] ∧ kept.Subperm (idx.map embedding) ∧
        Logged env (idx.map embedding) st' := by
    have hsim : Simulable env rows := by
      intro row hrow
      obtain ⟨i, hi, rfl⟩ := List.mem_map.mp (hsub.subset hrow)
      exact ⟨i, hindex i hi⟩
    have hlen : rows.length ≤ idx.length := by
      rw [← List.length_map embedding]
      exact hsub.length_le
    obtain ⟨kept, st', hrun, hkept, hsub', hlogs⟩ :=
      pruneStage_rows hsim hrows (hlen.trans hfuel) model metric st
    exact ⟨kept, st', hrun, hkept, hsub'.trans hsub, hlogs _ hsub.subset hlog⟩
  have hdesigns_ne : idx.map embedding ≠ [] := mt List.map_eq_nil_iff.mp hne
  obtain ⟨rows₁, st₁, hrun₁, hne₁, hsub₁, hlog₁⟩ :=
    hstage (List.Subperm.refl _) hdesigns_ne .area {} ⟨rfl, by simp⟩
  obtain ⟨rows₂, st₂, hrun₂, hne₂, hsub₂, hlog₂⟩ := hstage hsub₁ hne₁ .power st₁ hlog₁
  obtain ⟨rows₃, st₃, hrun₃, hne₃, hsub₃, hlog₃⟩ := hstage hsub₂ hne₂ .perf st₂ hlog₂
  refine ⟨_, rows₃, st₃, hdesigns, ?_, hne₃, hsub₃, hlog₃.count, fun i hi => ?_⟩
  · have harray : DesignArray.ofList (idx.map embedding) = .rows (idx.map embedding) := by
      obtain ⟨i, idx, rfl⟩ := List.exists_cons_of_ne_nil hne
      rfl
    rw [prune, hdesigns]
    simp only [Except.mapError, Exec.run_bind, Exec.run_ofExcept, harray, hrun₁, hrun₂, hrun₃]
  · obtain ⟨row, hrow, hrow'⟩ := hlog₃.explored i hi
    obtain ⟨j, hj, rfl⟩ := List.mem_map.mp hrow
    rw [hindex j hj] at hrow'
    exact Except.ok.inj hrow' ▸ hj

end ArchExplorer.Baseline
