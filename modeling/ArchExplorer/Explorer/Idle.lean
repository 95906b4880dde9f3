import ArchExplorer.Explorer.Contribution
import ArchExplorer.Explorer.Moves

/-!
# Idle resources

The removal takes hardware away from some of the bottlenecks that contribute nothing. The pass
before it adds hardware until `top_k` bottlenecks were adjusted, whatever they contribute, and so it
may reach bottlenecks without contribution.
-/

namespace ArchExplorer.Explorer

open ArchExplorer.Lib ArchExplorer.Design
open ArchExplorer.Core (Bottleneck bottleneck)

/-- Contributions as the analysis returns them: of all bottlenecks, from the largest to the
smallest. -/
structure Ranked (cs : List (String × ℚ)) : Prop where
  names : (cs.map Prod.fst).Perm bottleneck
  nonneg : ∀ c ∈ cs, 0 ≤ c.2
  sorted : cs.Pairwise fun c c' => c'.2 ≤ c.2

lemma Ranked.nodup {cs : List (String × ℚ)} (h : Ranked cs) : (cs.map Prod.fst).Nodup :=
  h.names.nodup_iff.mpr (by decide)

/-- A bottleneck has one contribution. -/
lemma Ranked.unique {cs : List (String × ℚ)} (h : Ranked cs) {name : String} {q q' : ℚ}
    (hq : (name, q) ∈ cs) (hq' : (name, q') ∈ cs) : q = q' :=
  (Prod.mk.inj (List.inj_on_of_nodup_map h.nodup hq hq' rfl)).2

lemma Ranked.exists_mem {cs : List (String × ℚ)} (h : Ranked cs) (b : Bottleneck) :
    ∃ q, (b.name, q) ∈ cs := by
  obtain ⟨⟨_, q⟩, hq, rfl⟩ := List.mem_map.mp (h.names.mem_iff.mpr b.name_mem)
  exact ⟨q, hq⟩

lemma mem_idle_iff {cs : List (String × ℚ)} {name : String} :
    name ∈ idle cs ↔ (name, 0) ∈ cs := by
  constructor
  · intro h
    obtain ⟨⟨_, q⟩, hq, rfl⟩ := List.mem_map.mp h
    obtain ⟨hq, hzero⟩ := List.mem_filter.mp hq
    obtain rfl : q = 0 := of_decide_eq_true hzero
    exact hq
  · exact fun h => List.mem_map.mpr ⟨_, List.mem_filter.mpr ⟨h, decide_eq_true rfl⟩, rfl⟩

lemma Ranked.nodup_sample {cs : List (String × ℚ)} (h : Ranked cs) {k : ℤ} {sample : List String}
    (hsample : IsSample (idle cs) k sample) : sample.Nodup := by
  obtain ⟨l, hl, hsub⟩ := hsample.1
  have hidle : (idle cs).Nodup := h.nodup.sublist (List.filter_sublist.map Prod.fst)
  exact hl.nodup_iff.mp (hidle.sublist hsub)

/-- No sensitive component is terminated. -/
structure SensitiveComponentManager.Active (scm : SensitiveComponentManager) : Prop where
  bp : scm.bp.terminate = false
  icache : scm.icache.terminate = false
  dcache : scm.dcache.terminate = false

/-- Does the table of the parameter at `p` have a row after the current one? -/
def hasRoom (mappings : Dict String Table) (e : List ℤ) (p : ℕ) : Bool :=
  match (do
    let table ← getItem mappings (paramAt p)
    let idx ← getIdx mappings (paramAt p) (← listItem e p)
    return movable true table.rows.items.length idx : Except PyError Bool) with
  | .ok b    => b
  | .error _ => false

/-- Does the bottleneck govern a parameter with room? -/
def grows (mappings : Dict String Table) (e : List ℤ) (name : String) : Bool :=
  (governed name).any (hasRoom mappings e)

/-- Does the step of the pass upwards for the bottleneck count as an adjustment? -/
def answers (mappings : Dict String Table) (scm : SensitiveComponentManager) (e : List ℤ)
    (name : String) : Bool :=
  !terminated scm name && grows mappings e name

section Pass

variable {mappings : Dict String Table} {scm : SensitiveComponentManager} {name : String} {p : ℕ}
  {up : Bool} {e e' : List ℤ} {r v : ℤ}

lemma SensitiveComponentManager.Active.terminated_eq (h : scm.Active) (name : String) :
    terminated scm name = false := by
  simp [terminated, h.bp, h.icache, h.dcache]

lemma SensitiveComponentManager.Active.answers_eq (h : scm.Active) (name : String) :
    answers mappings scm e name = grows mappings e name := by
  rw [answers, h.terminated_eq, Bool.not_false, Bool.true_and]

lemma increaseOne_eq (h : terminated scm name = false) :
    increaseOne mappings scm name = adjustAll mappings true (governed name) := by
  rw [terminated, Bool.or_eq_false_iff, Bool.or_eq_false_iff] at h
  obtain ⟨⟨hi, hd⟩, hb⟩ := h
  rw [← adjustNamed_eq, increaseOne, if_neg (by simpa using hi), if_neg (by simpa using hd),
    if_neg (by simpa using hb)]

/-- Falling back counts as no adjustment. -/
lemma increaseOne_terminated (h : terminated scm name = true) {b : Bool}
    (hrun : (increaseOne mappings scm name).run e = (.ok b, e')) : b = false := by
  have hfalse {x : EmbeddingM Unit} (hx : (x >>= fun _ => pure false).run e = (.ok b, e')) :
      b = false := by
    obtain ⟨_, e₁, -, hpure⟩ := Exec.run_bind_eq_ok hx
    exact (Except.ok.inj (Prod.mk.inj hpure).1).symm
  unfold increaseOne at hrun
  split_ifs at hrun with hi hd hb
  · exact hfalse hrun
  · exact hfalse hrun
  · exact hfalse hrun
  · simp_all [terminated]

lemma Fits.rowAt (h : Fits mappings e) (hp : p < 22) :
    ∃ v r, e[p]? = some v ∧ RowAt mappings p r v := by
  have hget : parameters[p]? = some (paramAt p) := by
    have hlt : p < parameters.length := hp
    rw [paramAt, List.getD_eq_getElem?_getD, List.getElem?_eq_getElem hlt, Option.getD_some]
  obtain ⟨v, hv, t, r, ht, hr⟩ := forall₂_getElem? h hget
  exact ⟨v, r, hv, t, ht, hr⟩

lemma hasRoom_eq (hsingles : Singles mappings) (hp : p < 22) (he : e[p]? = some v)
    (hrow : RowAt mappings p r v) {t : Table} (ht : mappings.get? (paramAt p) = some t) :
    hasRoom mappings e p = movable true t.rows.items.length r := by
  obtain ⟨t', m, ht', hsingle⟩ := hsingles _ (paramAt_mem hp)
  obtain rfl : t = t' := Option.some.inj (ht.symm.trans ht')
  obtain ⟨t', ht', hr⟩ := hrow
  obtain rfl : t = t' := Option.some.inj (ht.symm.trans ht')
  obtain ⟨d, hd⟩ := List.length_eq_one_iff.mp hsingle.description
  have hitem : listItem e p = .ok v := by rw [listItem, he]
  have hidx : getIdx mappings (paramAt p) v = .ok r := by
    rw [getIdx, getItem_of_get? ht, ok_bind, hd]
    exact hsingle.findRow_eq hr
  rw [hasRoom, getItem_of_get? ht, ok_bind, hitem, ok_bind, hidx, ok_bind]
  rfl

/-- A move that returns says whether there was room. -/
lemma moves_eq (hsingles : Singles mappings) (hfits : Fits mappings e) (hp : p < 22)
    (hok : ∃ b, ((adjustAt mappings true p).run e).1 = .ok b) :
    moves mappings true e p = hasRoom mappings e p := by
  obtain ⟨v, r, he, hrow⟩ := hfits.rowAt hp
  obtain ⟨t, ht, hrun⟩ := run_adjustAt true hsingles hp he hrow
  rw [hasRoom_eq hsingles hp he hrow ht, moves]
  rw [hrun] at hok ⊢
  split_ifs at hok ⊢ with hmove
  · split at hok
    · exact hmove.symm
    · obtain ⟨b, hb⟩ := hok
      cases hb
  · simpa using hmove

lemma adjusts_eq (hsingles : Singles mappings) (hfits : Fits mappings e)
    (hok : ∃ b, ((increaseOne mappings scm name).run e).1 = .ok b) :
    adjusts mappings scm e name = answers mappings scm e name := by
  obtain ⟨b, hb⟩ := hok
  cases hterm : terminated scm name with
  | true =>
    rw [adjusts, hb, answers, hterm]
    exact increaseOne_terminated hterm (Prod.ext hb rfl)
  | false =>
    rw [increaseOne_eq hterm] at hb
    have hall := of_adjustAll_run (nodup_governed name) (Prod.ext hb rfl)
    obtain ⟨e', hrun, -⟩ := adjustAll_run (nodup_governed name) hall
    rw [adjusts, increaseOne_eq hterm, hrun, answers, hterm, Bool.not_false, Bool.true_and]
    change (governed name).any _ = (governed name).any _
    rw [Bool.eq_iff_iff, List.any_eq_true, List.any_eq_true]
    refine exists_congr fun p => and_congr_right fun hp => ?_
    rw [moves_eq hsingles hfits (mem_governed_iff.mp hp).1 (hall p hp)]

lemma adjustAll_cell {ps : List ℕ} {b : Bool} (hnodup : ps.Nodup)
    (hrun : ((adjustAll mappings up ps).run e).1 = .ok b) (hp : p ∈ ps) :
    ∃ b, ((adjustAt mappings up p).run e).1 = .ok b ∧
      ((adjustAll mappings up ps).run e).2[p]? = ((adjustAt mappings up p).run e).2[p]? := by
  have hall := of_adjustAll_run hnodup (Prod.ext hrun rfl)
  obtain ⟨e', hrun', hcell⟩ := adjustAll_run hnodup hall
  obtain ⟨b', hb'⟩ := hall p hp
  exact ⟨b', hb', by rw [hrun', hcell p hp]⟩

/-- The pass downwards moves the entries of the sample, each as if it were alone. -/
lemma decrease_run {topK : ℤ} {cs : List (String × ℚ)} {sample : List String}
    (hsize : 0 ≤ sampleSize topK (idle cs)) (hnodup : sample.Nodup)
    (hok : ∀ name ∈ sample, ∃ b, ((adjustAll mappings false (governed name)).run e).1 = .ok b) :
    ∃ e', (decreaseHardwareResourceV2 mappings topK cs sample).run e = (.ok (), e') ∧
      (∀ name ∈ sample, ∀ p ∈ governed name,
        e'[p]? = ((adjustAt mappings false p).run e).2[p]?) ∧
      ∀ p, (∀ name ∈ sample, p ∉ governed name) → e'[p]? = e[p]? := by
  let step (name : String) : EmbeddingM PUnit := do
    let _ ← adjustNamed mappings false name
  have hlocal (name : String) : Local (· ∈ governed name) (step name) :=
    (local_adjustNamed name).bind fun _ => .pure _
  have hstep {name : String} {b : Bool}
      (hb : ((adjustAll mappings false (governed name)).run e).1 = .ok b) :
      (step name).run e = (.ok (), ((adjustAll mappings false (governed name)).run e).2) := by
    have hrun : (adjustNamed mappings false name).run e =
        (.ok b, ((adjustAll mappings false (governed name)).run e).2) := by
      rw [adjustNamed_eq]
      exact Prod.ext hb rfl
    exact Exec.run_bind_ok hrun _
  obtain ⟨e', hrun, hin, hout⟩ := Local.forM_disjoint hlocal
    (fun _ _ _ => eq_of_mem_governed) hnodup (l := e) fun name hname => by
      obtain ⟨b, hb⟩ := hok name hname
      rw [hstep hb]
  refine ⟨e', by rw [decreaseHardwareResourceV2, if_neg hsize.not_gt]; exact hrun, ?_, hout⟩
  intro name hname p hp
  obtain ⟨b, hb⟩ := hok name hname
  obtain ⟨-, -, hcell⟩ := adjustAll_cell (nodup_governed name) hb hp
  rw [hin name hname p hp, hstep hb, hcell]

lemma of_decrease_run {topK : ℤ} {cs : List (String × ℚ)} {sample : List String}
    (hnodup : sample.Nodup)
    (hrun : (decreaseHardwareResourceV2 mappings topK cs sample).run e = (.ok (), e')) :
    0 ≤ sampleSize topK (idle cs) ∧
      ∀ name ∈ sample, ∃ b, ((adjustAll mappings false (governed name)).run e).1 = .ok b := by
  rw [decreaseHardwareResourceV2] at hrun
  split_ifs at hrun with hsize
  · cases hrun
  · refine ⟨not_lt.mp hsize, fun name hname => ?_⟩
    have hlocal (name : String) : Local (· ∈ governed name) (do
        let _ ← adjustNamed mappings false name : EmbeddingM PUnit) :=
      (local_adjustNamed name).bind fun _ => .pure _
    have hok := Local.of_forM_disjoint hlocal (fun _ _ _ => eq_of_mem_governed) hnodup hrun
      name hname
    obtain ⟨b, e₁, hb, -⟩ := Exec.run_bind_eq_ok (Prod.ext hok rfl)
    rw [adjustNamed_eq] at hb
    exact ⟨b, by rw [hb]⟩

end Pass

/-- The loop asks only the bottlenecks that it reaches. -/
lemma reached_congr {adj adj' : String → Bool} {topK n : ℤ} {names : List String}
    (h : ∀ name ∈ reached adj topK n names, adj name = adj' name) :
    reached adj topK n names = reached adj' topK n names := by
  induction names generalizing n with
  | nil => rfl
  | cons name names ih =>
    simp only [reached] at h ⊢
    by_cases htop : topK ≤ n
    · rw [if_pos htop, if_pos htop]
    · rw [if_neg htop] at h
      rw [if_neg htop, if_neg htop]
      obtain ⟨hname, h⟩ := List.forall_mem_cons.mp h
      rw [ih h, hname]

/-! ### The rows of a parameter -/

/-- The parameter at `p` goes from the row `r` to the row `r'` if its bottleneck is reached by the
pass upwards or drawn for the pass downwards. -/
def Trail (mappings : Dict String Table) (raised lowered : Prop) [Decidable raised]
    [Decidable lowered] (p : ℕ) (r r' : ℤ) : Prop :=
  ∃ r₁, (if raised then Goes mappings true p r r₁ else r₁ = r) ∧
    if lowered then Goes mappings false p r₁ r' else r' = r₁

/-- The bottlenecks that are reached before `topK` of them had room to grow. -/
def raised (mappings : Dict String Table) (topK : ℤ) (e : List ℤ) (cs : List (String × ℚ)) :
    List String :=
  reached (grows mappings e) topK 0 (cs.map Prod.fst)

section Removal

variable {s : O3CPUDesignSpace} {idx topK : ℤ} {e e' : List ℤ} {cs : List (String × ℚ)}
  {sample : List String} {scm : SensitiveComponentManager}

lemma owner_lt {p : ℕ} {b : Bottleneck} (h : owner p = some b) : p < 22 := by
  unfold owner at h
  split at h <;> first | omega | cases h

lemma mem_governed_of_owner {p : ℕ} {b : Bottleneck} (h : owner p = some b) :
    p ∈ governed b.name := mem_governed_iff.mpr ⟨owner_lt h, by rw [h]; rfl⟩

lemma owner_of_mem_governed {p : ℕ} {name : String} (h : p ∈ governed name) :
    ∃ b, owner p = some b ∧ b.name = name :=
  Option.map_eq_some_iff.mp (mem_governed_iff.mp h).2

lemma notMem_governed {p : ℕ} {b : Bottleneck} {names : List String} (h : owner p = some b)
    (hb : b.name ∉ names) : ∀ name ∈ names, p ∉ governed name := by
  intro name hname hp
  exact hb (eq_of_mem_governed (mem_governed_of_owner h) hp ▸ hname)

/-- A removal that returns has taken the parameters along their tables. -/
lemma trail_of_removal [Averaging] (hsingles : Singles s.componentsMappings)
    (hfits : Fits s.componentsMappings e) (he : s.idxToEmbedding idx = .ok e)
    (hscm : scm.updateTerminate.Active) (hnames : (cs.map Prod.fst).Nodup)
    (hsample : sample.Nodup)
    (hrun : (bottleneckRemoval s topK sample scm idx cs).1 = .ok e') {p : ℕ} {b : Bottleneck}
    (hp : owner p = some b) {v v' r r' : ℤ} (hv : e[p]? = some v)
    (hrow : RowAt s.componentsMappings p r v) (hv' : e'[p]? = some v')
    (hrow' : RowAt s.componentsMappings p r' v') :
    Trail s.componentsMappings (b.name ∈ raised s.componentsMappings topK e cs)
      (b.name ∈ sample) p r r' := by
  have hlt := owner_lt hp
  have hgov := mem_governed_of_owner hp
  obtain ⟨e₁, hup, hdown⟩ := removal_inv he hrun
  have hok := of_increaseLoop_run hnames hup
  have hreached : reached (adjusts s.componentsMappings scm.updateTerminate e) topK 0
      (cs.map Prod.fst) = raised s.componentsMappings topK e cs :=
    reached_congr fun name hname =>
      (adjusts_eq hsingles hfits (hok name hname)).trans (hscm.answers_eq name)
  obtain ⟨e₁', hup', hin, hout⟩ := increaseLoop_run hnames hok
  obtain rfl : e₁ = e₁' := (Prod.mk.inj (hup.symm.trans hup')).2
  rw [hreached] at hok hin hout
  obtain ⟨hsize, hlow⟩ := of_decrease_run hsample hdown
  obtain ⟨e₂, hdown', hin₂, hout₂⟩ := decrease_run hsize hsample hlow
  obtain rfl : e' = e₂ := (Prod.mk.inj (hdown.symm.trans hdown')).2
  -- the entry between the passes
  obtain ⟨v₁, hv₁⟩ : ∃ v₁, e₁[p]? = some v₁ := by
    have hlen : e₁.length = 22 := (length_increase hup).trans hfits.length_eq
    exact ⟨_, List.getElem?_eq_getElem (hlen ▸ hlt)⟩
  have hrow₁ : ∃ r₁, RowAt s.componentsMappings p r₁ v₁ ∧
      if b.name ∈ sample then Goes s.componentsMappings false p r₁ r' else r' = r₁ := by
    split_ifs with hs
    · obtain ⟨_, hb⟩ := hlow b.name hs
      obtain ⟨_, hb, -⟩ := adjustAll_cell (nodup_governed _) hb hgov
      have hcell := (hin₂ b.name hs p hgov).symm.trans hv'
      -- a value outside of the table would have been kept
      by_cases hex : ∃ r₁, RowAt s.componentsMappings p r₁ v₁
      · obtain ⟨r₁, hr₁⟩ := hex
        exact ⟨r₁, hr₁, goes_of_adjustAt hsingles hlt hv₁ hr₁ (Prod.ext hb rfl) hcell hrow'⟩
      · rw [adjustAt_stuck hsingles hlt hv₁ (not_exists.mp hex)] at hcell
        obtain rfl : v₁ = v' := Option.some.inj (hv₁.symm.trans hcell)
        exact absurd ⟨r', hrow'⟩ hex
    · have hsame := hout₂ p (notMem_governed hp hs)
      obtain rfl : v₁ = v' := Option.some.inj (hv₁.symm.trans (hsame.symm.trans hv'))
      exact ⟨r', hrow', rfl⟩
  obtain ⟨r₁, hr₁, hlast⟩ := hrow₁
  refine ⟨r₁, ?_, hlast⟩
  split_ifs with hs
  · obtain ⟨_, hb⟩ := hok b.name hs
    have hcell := (hin b.name hs p hgov).symm.trans hv₁
    rw [increaseOne_eq (hscm.terminated_eq _)] at hb hcell
    obtain ⟨_, hb, hall⟩ := adjustAll_cell (nodup_governed _) hb hgov
    exact goes_of_adjustAt hsingles hlt hv hrow (Prod.ext hb rfl) (hall.symm.trans hcell) hr₁
  · have hsame := hout p (notMem_governed hp hs)
    obtain rfl : v = v₁ := Option.some.inj (hv.symm.trans (hsame.symm.trans hv₁))
    exact hr₁.unique hsingles hlt hrow

/-- The moves of a bottleneck return if each of its parameters has a row to go to. -/
lemma adjustAll_of_goes {mappings : Dict String Table} {up : Bool} {name : String}
    (hsingles : Singles mappings)
    (h : ∀ p ∈ governed name, ∃ v r r', e[p]? = some v ∧ RowAt mappings p r v ∧
      Goes mappings up p r r') :
    ∃ b, ((adjustAll mappings up (governed name)).run e).1 = .ok b := by
  have hok : ∀ p ∈ governed name, ∃ b, ((adjustAt mappings up p).run e).1 = .ok b := by
    intro p hp
    obtain ⟨v, r, r', hv, hrow, hgoes⟩ := h p hp
    obtain ⟨b, _, hrun, -⟩ := adjustAt_of_goes hsingles (mem_governed_iff.mp hp).1 hv hrow hgoes
    exact ⟨b, by rw [hrun]⟩
  obtain ⟨e', hrun, -⟩ := adjustAll_run (nodup_governed name) hok
  exact ⟨_, by rw [hrun]⟩

/-- The entry of a parameter that goes to another row. -/
lemma cell_of_goes {mappings : Dict String Table} {up : Bool} {p : ℕ} {v r r' : ℤ}
    (hsingles : Singles mappings) (hp : p < 22) (hv : e[p]? = some v) (hrow : RowAt mappings p r v)
    (hgoes : Goes mappings up p r r') :
    ∃ v', ((adjustAt mappings up p).run e).2[p]? = some v' ∧ RowAt mappings p r' v' := by
  obtain ⟨b, v', hrun, hrow'⟩ := adjustAt_of_goes hsingles hp hv hrow hgoes
  refine ⟨v', ?_, hrow'⟩
  rw [hrun]
  exact List.getElem?_set_self (List.getElem?_eq_some_iff.mp hv).1

/-- A removal whose passes return. -/
lemma removal_eq [Averaging] {e₁ : List ℤ} (he : s.idxToEmbedding idx = .ok e)
    (hup : (increaseHardwareResource s.componentsMappings topK scm cs).run e = (.ok (), e₁))
    (hdown : (decreaseHardwareResourceV2 s.componentsMappings topK cs sample).run e₁ =
      (.ok (), e')) : (bottleneckRemoval s topK sample scm idx cs).1 = .ok e' := by
  simp only [bottleneckRemoval, he]
  rw [Exec.run_bind_ok hup, hdown]
  rfl

/-- Parameters that can be taken along their tables are. -/
lemma removal_of_trail [Averaging] {R : ℕ → ℤ → Prop} (hsingles : Singles s.componentsMappings)
    (hfits : Fits s.componentsMappings e) (he : s.idxToEmbedding idx = .ok e)
    (hscm : scm.updateTerminate.Active) (hnames : (cs.map Prod.fst).Nodup)
    (hsample : sample.Nodup) (hsize : 0 ≤ sampleSize topK (idle cs))
    (htrail : ∀ p b v r, owner p = some b → e[p]? = some v → RowAt s.componentsMappings p r v →
      ∃ r', Trail s.componentsMappings (b.name ∈ raised s.componentsMappings topK e cs)
        (b.name ∈ sample) p r r' ∧ R p r') :
    ∃ e', (bottleneckRemoval s topK sample scm idx cs).1 = .ok e' ∧
      ∀ p b, owner p = some b → ∃ v' r', e'[p]? = some v' ∧
        RowAt s.componentsMappings p r' v' ∧ R p r' := by
  -- the row between the passes
  have hrow₁ : ∀ p b, owner p = some b → ∃ v r r₁ r', e[p]? = some v ∧
      RowAt s.componentsMappings p r v ∧
      (if b.name ∈ raised s.componentsMappings topK e cs then Goes s.componentsMappings true p r r₁
        else r₁ = r) ∧
      (if b.name ∈ sample then Goes s.componentsMappings false p r₁ r' else r' = r₁) ∧ R p r' := by
    intro p b hp
    obtain ⟨v, r, hv, hrow⟩ := hfits.rowAt (owner_lt hp)
    obtain ⟨r', ⟨r₁, hup, hdown⟩, hR⟩ := htrail p b v r hp hv hrow
    exact ⟨v, r, r₁, r', hv, hrow, hup, hdown, hR⟩
  have hok : ∀ name ∈ raised s.componentsMappings topK e cs,
      ∃ b, ((increaseOne s.componentsMappings scm.updateTerminate name).run e).1 = .ok b := by
    intro name hname
    rw [increaseOne_eq (hscm.terminated_eq _)]
    refine adjustAll_of_goes hsingles fun p hp => ?_
    obtain ⟨b, hb, rfl⟩ := owner_of_mem_governed hp
    obtain ⟨v, r, r₁, -, hv, hrow, hup, -⟩ := hrow₁ p b hb
    rw [if_pos hname] at hup
    exact ⟨v, r, r₁, hv, hrow, hup⟩
  have hreached : reached (adjusts s.componentsMappings scm.updateTerminate e) topK 0
      (cs.map Prod.fst) = raised s.componentsMappings topK e cs :=
    (reached_congr fun name hname =>
      ((adjusts_eq hsingles hfits (hok name hname)).trans (hscm.answers_eq name)).symm).symm
  rw [← hreached] at hok
  obtain ⟨e₁, hup, hin, hout⟩ := increaseLoop_run hnames hok
  rw [hreached] at hin hout
  have hrow₂ : ∀ p b, owner p = some b → ∃ v₁ r₁ r', e₁[p]? = some v₁ ∧
      RowAt s.componentsMappings p r₁ v₁ ∧
      (if b.name ∈ sample then Goes s.componentsMappings false p r₁ r' else r' = r₁) ∧ R p r' := by
    intro p b hp
    obtain ⟨v, r, r₁, r', hv, hrow, hraise, hlower, hR⟩ := hrow₁ p b hp
    split_ifs at hraise with hs
    · obtain ⟨v₁, hv₁, hr₁⟩ := cell_of_goes hsingles (owner_lt hp) hv hrow hraise
      refine ⟨v₁, r₁, r', ?_, hr₁, hlower, hR⟩
      obtain ⟨_, hb⟩ := hok b.name (hreached ▸ hs)
      rw [hin b.name hs p (mem_governed_of_owner hp), increaseOne_eq (hscm.terminated_eq _)]
      rw [increaseOne_eq (hscm.terminated_eq _)] at hb
      obtain ⟨-, -, hcell⟩ := adjustAll_cell (nodup_governed _) hb (mem_governed_of_owner hp)
      exact hcell.trans hv₁
    · obtain rfl := hraise
      exact ⟨v, r₁, r', (hout p (notMem_governed hp hs)).trans hv, hrow, hlower, hR⟩
  have hlow : ∀ name ∈ sample,
      ∃ b, ((adjustAll s.componentsMappings false (governed name)).run e₁).1 = .ok b := by
    intro name hname
    refine adjustAll_of_goes hsingles fun p hp => ?_
    obtain ⟨b, hb, rfl⟩ := owner_of_mem_governed hp
    obtain ⟨v₁, r₁, r', hv₁, hr₁, hlower, -⟩ := hrow₂ p b hb
    rw [if_pos hname] at hlower
    exact ⟨v₁, r₁, r', hv₁, hr₁, hlower⟩
  obtain ⟨e', hdown, hin', hout'⟩ := decrease_run hsize hsample hlow
  refine ⟨e', removal_eq he hup hdown, fun p b hp => ?_⟩
  obtain ⟨v₁, r₁, r', hv₁, hr₁, hlower, hR⟩ := hrow₂ p b hp
  split_ifs at hlower with hs
  · obtain ⟨v', hv', hr'⟩ := cell_of_goes hsingles (owner_lt hp) hv₁ hr₁ hlower
    exact ⟨v', r', (hin' b.name hs p (mem_governed_of_owner hp)).trans hv', hr', hR⟩
  · obtain rfl := hlower
    exact ⟨v₁, r', (hout' p (notMem_governed hp hs)).trans hv₁, hr₁, hR⟩

end Removal

/-- The row after a move in the own table. -/
def stepRow (up : Bool) (m : ℕ) (r : ℤ) : ℤ := if movable up m r then neighbour up r else r

section Step

variable {mappings : Dict String Table} {up : Bool} {p : ℕ} {t : Table} {m : ℕ} {r r' : ℤ}

lemma stepRow_mem (up : Bool) (hr : 1 ≤ r ∧ r ≤ m) : 1 ≤ stepRow up m r ∧ stepRow up m r ≤ m := by
  cases up <;> simp only [stepRow, movable, neighbour, Bool.and_eq_true, decide_eq_true_eq] <;>
    split_ifs <;> simp_all <;> omega

/-- All parameters but the choice predictor move in their own table. -/
lemma goes_iff (hp : p ≠ 5) (ht : mappings.get? (paramAt p) = some t) (hsingle : Single t m)
    (hr : 1 ≤ r ∧ r ≤ m) : Goes mappings up p r r' ↔ r' = stepRow up m r := by
  have htable : moveTable p = paramAt p := if_neg hp
  constructor
  · rintro ⟨t₁, ht₁, hgoes⟩
    obtain rfl : t = t₁ := Option.some.inj (ht.symm.trans ht₁)
    rw [hsingle.length_items] at hgoes
    rw [stepRow]
    split_ifs at hgoes ⊢
    · obtain ⟨t', w, ht', hw, hw'⟩ := hgoes
      obtain rfl : t = t' := Option.some.inj (ht.symm.trans (htable ▸ ht'))
      exact Except.ok.inj ((hsingle.findRow_eq hw').symm.trans (hsingle.findRow_eq hw))
    · exact hgoes
  · rintro rfl
    obtain ⟨w, hw⟩ := hsingle.get?_iff.mpr (stepRow_mem up hr)
    refine ⟨t, ht, ?_⟩
    rw [hsingle.length_items, stepRow] at *
    split_ifs with hmove
    · rw [if_pos hmove] at hw
      exact ⟨t, w, htable ▸ ht, hw, hw⟩
    · rfl

lemma RowAt.table {v : ℤ} (hsingles : Singles mappings) (hp : p < 22)
    (hrow : RowAt mappings p r v) :
    ∃ t m, mappings.get? (paramAt p) = some t ∧ Single t m ∧ 1 ≤ r ∧ r ≤ m := by
  obtain ⟨t, m, ht, hsingle⟩ := hsingles _ (paramAt_mem hp)
  obtain ⟨t', ht', hr⟩ := hrow
  obtain rfl : t = t' := Option.some.inj (ht.symm.trans ht')
  exact ⟨t, m, ht, hsingle, hsingle.get?_iff.mp ⟨v, hr⟩⟩

lemma stepRow_true (r : ℤ) (m : ℕ) (h : movable true m r = true) : stepRow true m r = r + 1 :=
  if_pos h

lemma le_stepRow_true (r : ℤ) (m : ℕ) : r ≤ stepRow true m r := by
  simp only [stepRow, neighbour, if_true]
  split_ifs <;> omega

lemma stepRow_false_le (r : ℤ) (m : ℕ) : stepRow false m r ≤ r := by
  simp only [stepRow, neighbour, Bool.false_eq_true, if_false]
  split_ifs <;> omega

/-- A move downwards takes a move upwards back. -/
lemma stepRow_false_true (hr : 1 ≤ r) : stepRow false m (stepRow true m r) ≤ r := by
  by_cases hmove : movable true m r = true
  · have hback : movable false m (r + 1) = true := by
      simp [movable]
      omega
    rw [stepRow_true r m hmove, stepRow, if_pos hback, neighbour]
    simp
  · have hstay : stepRow true m r = r := if_neg hmove
    rw [hstay]
    exact stepRow_false_le r m

/-- The rows of a parameter that moves in its own table. -/
lemma trail_own (hp : p ≠ 5) (ht : mappings.get? (paramAt p) = some t) (hsingle : Single t m)
    (hr : 1 ≤ r ∧ r ≤ m) (raised lowered : Prop) [Decidable raised] [Decidable lowered] :
    Trail mappings raised lowered p r
      (if lowered then stepRow false m (if raised then stepRow true m r else r)
        else if raised then stepRow true m r else r) := by
  have hr₁ : 1 ≤ (if raised then stepRow true m r else r) ∧
      (if raised then stepRow true m r else r) ≤ m := by
    split_ifs
    · exact stepRow_mem true hr
    · exact hr
  refine ⟨if raised then stepRow true m r else r, ?_, ?_⟩
  · split_ifs
    · exact (goes_iff hp ht hsingle hr).mpr rfl
    · rfl
  · by_cases hl : lowered
    · rw [if_pos hl, if_pos hl]
      exact (goes_iff hp ht hsingle hr₁).mpr rfl
    · rw [if_neg hl, if_neg hl]

end Step

/-! ### Following the contributions -/

/-- The removal returns a design in which no parameter of a bottleneck without contribution is in a
later row than before, and none of a bottleneck with a contribution in an earlier one. -/
def FollowsContribution [Averaging] (s : O3CPUDesignSpace) (topK : ℤ) (sample : List String)
    (scm : SensitiveComponentManager) (idx : ℤ) (cs : List (String × ℚ)) (e : List ℤ) : Prop :=
  ∃ e', (bottleneckRemoval s topK sample scm idx cs).1 = .ok e' ∧
    ∀ p b q, owner p = some b → (b.name, q) ∈ cs →
      ∃ v v' r r', e[p]? = some v ∧ e'[p]? = some v' ∧ RowAt s.componentsMappings p r v ∧
        RowAt s.componentsMappings p r' v' ∧ (q = 0 → r' ≤ r) ∧ (0 < q → r ≤ r')

/-- The bottlenecks without contribution that are reached by the pass upwards are drawn for the pass
downwards, or their parameters have no room. The choice predictor is left out. -/
def IdleSheltered (mappings : Dict String Table) (topK : ℤ) (sample : List String)
    (cs : List (String × ℚ)) (e : List ℤ) : Prop :=
  ∀ name ∈ raised mappings topK e cs, (name, 0) ∈ cs → name ∉ sample →
    ∀ p ∈ governed name, p ≠ 5 → hasRoom mappings e p = false

/-- The table of the global predictor takes the choice predictor in the right direction. -/
def ChoiceFollows (mappings : Dict String Table) (topK : ℤ) (sample : List String)
    (cs : List (String × ℚ)) (e : List ℤ) : Prop :=
  ∀ q v r, (Bottleneck.bpMiss.name, q) ∈ cs → e[5]? = some v → RowAt mappings 5 r v →
    ∃ r', Trail mappings (Bottleneck.bpMiss.name ∈ raised mappings topK e cs)
      (Bottleneck.bpMiss.name ∈ sample) 5 r r' ∧ (q = 0 → r' ≤ r) ∧ (0 < q → r ≤ r')

/-- A parameter that is sheltered has a trail that follows the contribution. -/
lemma exists_trail {mappings : Dict String Table} (hsingles : Singles mappings)
    {cs : List (String × ℚ)} (hcs : Ranked cs) {topK : ℤ} {sample : List String}
    (hsample : sample ⊆ idle cs) {e : List ℤ} (hidle : IdleSheltered mappings topK sample cs e)
    (hchoice : ChoiceFollows mappings topK sample cs e) {p : ℕ} {b : Bottleneck} {q : ℚ} {v r : ℤ}
    (hp : owner p = some b) (hq : (b.name, q) ∈ cs) (hv : e[p]? = some v)
    (hrow : RowAt mappings p r v) :
    ∃ r', Trail mappings (b.name ∈ raised mappings topK e cs) (b.name ∈ sample) p r r' ∧
      (q = 0 → r' ≤ r) ∧ (0 < q → r ≤ r') := by
  by_cases hne : p = 5
  · subst hne
    obtain rfl : Bottleneck.bpMiss = b := Option.some.inj hp
    exact hchoice q v r hq hv hrow
  · obtain ⟨t, m, ht, hsingle, hr⟩ := hrow.table hsingles (owner_lt hp)
    refine ⟨_, trail_own hne ht hsingle hr _ _, fun hzero => ?_, fun hpos => ?_⟩
    · subst hzero
      split_ifs with hs hup hup
      · exact stepRow_false_true hr.1
      · exact stepRow_false_le r m
      · have hroom := hidle b.name hup hq hs p (mem_governed_of_owner hp) hne
        rw [hasRoom_eq hsingles (owner_lt hp) hv hrow ht, hsingle.length_items] at hroom
        exact (if_neg (by rw [hroom]; decide) : stepRow true m r = r).le
      · exact le_rfl
    · have hs : b.name ∉ sample := fun hs =>
        hpos.ne (hcs.unique (mem_idle_iff.mp (hsample hs)) hq)
      rw [if_neg hs]
      split_ifs
      · exact le_stepRow_true r m
      · exact le_rfl

/-- The removal follows the contributions if and only if it takes back what it has added to idle
resources. -/
theorem followsContribution_iff [Averaging] (s : O3CPUDesignSpace) (h : Explorable s) (idx : ℤ)
    (e : List ℤ) (hpos : 1 ≤ idx) (hle : idx ≤ s.size) (he : s.idxToEmbedding idx = .ok e)
    (cs : List (String × ℚ)) (hcs : Ranked cs) (topK : ℤ) (sample : List String)
    (hsample : IsSample (idle cs) (sampleSize topK (idle cs)) sample)
    (scm : SensitiveComponentManager) (hscm : scm.updateTerminate.Active) :
    FollowsContribution s topK sample scm idx cs e ↔
      IdleSheltered s.componentsMappings topK sample cs e ∧
        ChoiceFollows s.componentsMappings topK sample cs e := by
  obtain ⟨e', he', hfits⟩ := h.fits_of_idx hpos hle
  obtain rfl : e = e' := Except.ok.inj (he.symm.trans he')
  have hsize : 0 ≤ sampleSize topK (idle cs) := hsample.2 ▸ Int.natCast_nonneg _
  constructor
  · rintro ⟨e', hrun, hrows⟩
    have htrail {p : ℕ} {b : Bottleneck} {v v' r r' : ℤ} (hp : owner p = some b)
        (hv : e[p]? = some v) (hrow : RowAt s.componentsMappings p r v) (hv' : e'[p]? = some v')
        (hrow' : RowAt s.componentsMappings p r' v') :
        Trail s.componentsMappings (b.name ∈ raised s.componentsMappings topK e cs)
          (b.name ∈ sample) p r r' :=
      trail_of_removal h.singles hfits he hscm hcs.nodup (hcs.nodup_sample hsample) hrun hp hv hrow
        hv' hrow'
    refine ⟨fun name hname hzero hs p hp hne => ?_, fun q v r hq hv hrow => ?_⟩
    · obtain ⟨b, hb, rfl⟩ := owner_of_mem_governed hp
      obtain ⟨v, v', r, r', hv, hv', hrow, hrow', hidle, -⟩ := hrows p b 0 hb hzero
      obtain ⟨r₁, hup, hdown⟩ := htrail hb hv hrow hv' hrow'
      rw [if_pos hname] at hup
      rw [if_neg hs] at hdown
      obtain ⟨t, m, ht, hsingle, hr⟩ := hrow.table h.singles (owner_lt hb)
      rw [goes_iff hne ht hsingle hr] at hup
      rw [hasRoom_eq h.singles (owner_lt hb) hv hrow ht, hsingle.length_items]
      by_contra hroom
      rw [stepRow_true r m (Bool.of_not_eq_false hroom)] at hup
      have hle := hidle rfl
      omega
    · obtain ⟨v₀, v', r₀, r', hv₀, hv', hrow₀, hrow', horder⟩ := hrows 5 .bpMiss q rfl hq
      obtain rfl : v = v₀ := Option.some.inj (hv.symm.trans hv₀)
      obtain rfl : r = r₀ := hrow.unique h.singles (by decide) hrow₀
      exact ⟨r', htrail rfl hv hrow hv' hrow', horder⟩
  · rintro ⟨hidle, hchoice⟩
    let Follows (p : ℕ) (r' : ℤ) : Prop := ∀ b q v r, owner p = some b → (b.name, q) ∈ cs →
      e[p]? = some v → RowAt s.componentsMappings p r v → (q = 0 → r' ≤ r) ∧ (0 < q → r ≤ r')
    obtain ⟨e', hrun, hrows⟩ := removal_of_trail (R := Follows) h.singles hfits he hscm hcs.nodup
      (hcs.nodup_sample hsample) hsize fun p b v r hp hv hrow => by
        obtain ⟨q, hq⟩ := hcs.exists_mem b
        obtain ⟨r', htrail, horder⟩ :=
          exists_trail h.singles hcs hsample.1.subset hidle hchoice hp hq hv hrow
        refine ⟨r', htrail, fun b' q' v' r₀ hp' hq' hv' hrow' => ?_⟩
        obtain rfl : b = b' := Option.some.inj (hp.symm.trans hp')
        obtain rfl : v = v' := Option.some.inj (hv.symm.trans hv')
        obtain rfl : r = r₀ := hrow.unique h.singles (owner_lt hp) hrow'
        obtain rfl : q = q' := hcs.unique hq hq'
        exact horder
    refine ⟨e', hrun, fun p b q hp hq => ?_⟩
    obtain ⟨v, r, hv, hrow⟩ := hfits.rowAt (owner_lt hp)
    obtain ⟨v', r', hv', hrow', hfollows⟩ := hrows p b hp
    exact ⟨v, v', r, r', hv, hv', hrow, hrow', hfollows b q v r hp hq hv hrow⟩

/-! ### A small space -/

/-- The instruction cache has three sizes, the reorder buffer two, and the data cache two
associativities. -/
def cacheRows (name : String) : List ℤ :=
  if name = "l1i_size" then [16, 32, 64]
  else if name = "numROBEntries" then [32, 48]
  else if name = "l1d_assoc" then [2, 4]
  else [1]

lemma explorable_cacheRows : Explorable (spaceOf cacheRows) :=
  explorable_spaceOf (by decide) (by decide) (by decide)

/-- The contributions of paths that wait for nothing but the instruction cache. -/
def fetchContribution (base icache : ℚ) : List (String × ℚ) :=
  bottleneck.map fun name => (name, if name = Bottleneck.base.name then base
    else if name = Bottleneck.icacheMiss.name then icache else 0)

/-- The smallest design. -/
def smallest : List ℤ := [1, 1, 1, 1, 1, 1, 1, 1, 32, 1, 1, 1, 1, 1, 1, 1, 1, 1, 16, 1, 1, 2]

lemma active_resting [Averaging] (bp : ℤ × ℤ × ℤ) (icache dcache : ℤ × ℤ) :
    (resting false bp icache dcache).updateTerminate.Active := by
  rw [resting_updateTerminate]
  exact ⟨rfl, rfl, rfl⟩

lemma ranked_fetchContribution {base icache : ℚ} (hnonneg : 0 ≤ icache) (hle : icache ≤ base) :
    Ranked (fetchContribution base icache) where
  names := by
    rw [fetchContribution, List.map_map]
    exact .of_eq (List.map_id bottleneck)
  nonneg := by
    refine List.forall_mem_map.mpr fun name _ => ?_
    dsimp only
    split_ifs
    · exact hnonneg.trans hle
    · exact hnonneg
    · exact le_rfl
  sorted := by
    simp [fetchContribution, bottleneck, Bottleneck.name, hnonneg, hle, hnonneg.trans hle]

instance (mappings : Dict String Table) (topK : ℤ) (sample : List String) (cs : List (String × ℚ))
    (e : List ℤ) : Decidable (IdleSheltered mappings topK sample cs e) :=
  inferInstanceAs (Decidable (∀ name ∈ raised mappings topK e cs, (name, 0) ∈ cs → name ∉ sample →
    ∀ p ∈ governed name, p ≠ 5 → hasRoom mappings e p = false))

instance (candidates : List String) (k : ℤ) (sample : List String) :
    Decidable (IsSample candidates k sample) :=
  inferInstanceAs (Decidable (sample.Subperm candidates ∧ (sample.length : ℤ) = k))

/-- What is computed for the smallest design, when the path waits for the instruction cache and when
it waits for nothing. -/
lemma smallest_calls :
    (1 ≤ (spaceOf cacheRows).size ∧ (spaceOf cacheRows).idxToEmbedding 1 = .ok smallest) ∧
      (IsSample (idle (fetchContribution (9 / 10) (1 / 10)))
          (sampleSize 1 (idle (fetchContribution (9 / 10) (1 / 10)))) [Bottleneck.rob.name] ∧
        IdleSheltered (spaceOf cacheRows).componentsMappings 1 [Bottleneck.rob.name]
          (fetchContribution (9 / 10) (1 / 10)) smallest ∧
        Bottleneck.bpMiss.name ∉ raised (spaceOf cacheRows).componentsMappings 1 smallest
          (fetchContribution (9 / 10) (1 / 10))) ∧
      IsSample (idle (fetchContribution 1 0)) (sampleSize 1 (idle (fetchContribution 1 0)))
        [Bottleneck.rob.name] ∧
      (bottleneckRemoval (spaceOf cacheRows) 1 [Bottleneck.rob.name]
        (resting false (1, 1, 1) (16, 1) (1, 2)) 1 (fetchContribution 1 0)).1 =
          .ok [1, 1, 1, 1, 1, 1, 1, 1, 32, 1, 1, 1, 1, 1, 1, 1, 1, 1, 32, 1, 1, 2] ∧
      (Bottleneck.icacheMiss.name, 0) ∈ fetchContribution 1 0 := by
  decide +kernel

/-- The pass upwards stops at the instruction cache, which has a contribution. -/
theorem followsContribution_cacheRows :
    IsSample (idle (fetchContribution (9 / 10) (1 / 10)))
        (sampleSize 1 (idle (fetchContribution (9 / 10) (1 / 10)))) [Bottleneck.rob.name] ∧
      FollowsContribution (spaceOf cacheRows) 1 [Bottleneck.rob.name]
        (resting false (1, 1, 1) (16, 1) (1, 2)) 1 (fetchContribution (9 / 10) (1 / 10))
        smallest := by
  obtain ⟨⟨hsize, hsmallest⟩, ⟨hsample, hsheltered, hraised⟩, -⟩ := smallest_calls
  refine ⟨hsample, (followsContribution_iff _ explorable_cacheRows 1 smallest (by decide)
    hsize hsmallest _ (ranked_fetchContribution (by norm_num) (by norm_num)) 1 _ hsample _
    (active_resting ..)).mpr ⟨hsheltered, fun q v r _ _ _ => ?_⟩⟩
  refine ⟨r, ⟨r, ?_, ?_⟩, fun _ => le_rfl, fun _ => le_rfl⟩
  · rw [if_neg hraised]
  · rw [if_neg (by decide)]

/-- Nothing but `Base` contributes, and the instruction cache grows. -/
theorem idle_icache_grows :
    Explorable (spaceOf cacheRows) ∧ (spaceOf cacheRows).idxToEmbedding 1 = .ok smallest ∧
      Ranked (fetchContribution 1 0) ∧
      IsSample (idle (fetchContribution 1 0)) (sampleSize 1 (idle (fetchContribution 1 0)))
        [Bottleneck.rob.name] ∧
      (resting false (1, 1, 1) (16, 1) (1, 2)).updateTerminate.Active ∧
      (bottleneckRemoval (spaceOf cacheRows) 1 [Bottleneck.rob.name]
        (resting false (1, 1, 1) (16, 1) (1, 2)) 1 (fetchContribution 1 0)).1 =
          .ok [1, 1, 1, 1, 1, 1, 1, 1, 32, 1, 1, 1, 1, 1, 1, 1, 1, 1, 32, 1, 1, 2] ∧
      owner 18 = some .icacheMiss ∧ (Bottleneck.icacheMiss.name, 0) ∈ fetchContribution 1 0 ∧
      RowAt (spaceOf cacheRows).componentsMappings 18 1 16 ∧
      RowAt (spaceOf cacheRows).componentsMappings 18 2 32 := by
  obtain ⟨⟨-, hsmallest⟩, -, hsample, hremoval, hmem⟩ := smallest_calls
  exact ⟨explorable_cacheRows, hsmallest, ranked_fetchContribution le_rfl zero_le_one, hsample,
    active_resting .., hremoval, rfl, hmem, ⟨_, rfl, rfl⟩, ⟨_, rfl, rfl⟩⟩

end ArchExplorer.Explorer
