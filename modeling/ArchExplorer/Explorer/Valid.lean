import ArchExplorer.Design.Encoding
import ArchExplorer.Explorer.Removal

/-!
# The search stays in the design space

An embedding fits the tables when each of its entries is a row of the table of its parameter. Moving
along a table keeps that; the choice predictor moves along the table of the global predictor.
-/

namespace ArchExplorer.Explorer

open ArchExplorer.Lib ArchExplorer.Design
open ArchExplorer.Core (Bottleneck)

/-- The parameters of a design, in the order of the embedding. -/
def parameters : List String :=
  ["pipelineWidth", "fetchBufferSize", "fetchQueueSize", "localPredictorSize",
    "globalPredictorSize", "choicePredictorSize", "RASSize", "BTBEntries", "numROBEntries",
    "numPhysIntRegs", "numPhysFloatRegs", "numIQEntries", "LQEntries", "SQEntries", "IntALU",
    "IntMult_Div", "FP_ALU", "FP_MultDiv", "l1i_size", "l1i_assoc", "l1d_size", "l1d_assoc"]

/-! ### Tables of one parameter -/

/-- A table of one parameter with the rows `1` to `m`. -/
structure Single (t : Table) (m : ℕ) : Prop where
  description : t.description.length = 1
  pos : 1 ≤ m
  keys : t.rows.keys = (List.range m).map fun i : ℕ => (i : ℤ) + 1
  nodup : t.rows.values.Nodup
  length : ∀ row ∈ t.rows.values, row.length = 1

namespace Single

variable {t : Table} {m : ℕ} {id id' v : ℤ} {row : List ℤ}

lemma length_items (h : Single t m) : t.rows.items.length = m := by
  have hkeys : t.rows.keys.length = m := by simp [h.keys]
  simpa [Dict.keys] using hkeys

lemma exists_value (h : Single t m) (hrow : t.rows.get? id = some row) : ∃ v, row = [v] :=
  List.length_eq_one_iff.mp
    (h.length row (List.mem_map.mpr ⟨_, Dict.mem_items_iff.mpr hrow, rfl⟩))

lemma mem_keys_iff (h : Single t m) : id ∈ t.rows.keys ↔ 1 ≤ id ∧ id ≤ m := by
  rw [h.keys, List.mem_map]
  constructor
  · rintro ⟨i, hi, rfl⟩
    rw [List.mem_range] at hi
    omega
  · rintro ⟨hpos, hle⟩
    exact ⟨(id - 1).toNat, List.mem_range.mpr (by omega), by omega⟩

lemma get?_iff (h : Single t m) : (∃ v, t.rows.get? id = some [v]) ↔ 1 ≤ id ∧ id ≤ m := by
  rw [← h.mem_keys_iff, Dict.mem_keys_iff]
  constructor
  · rintro ⟨v, hv⟩
    exact ⟨_, hv⟩
  · rintro ⟨row, hrow⟩
    obtain ⟨v, rfl⟩ := h.exists_value hrow
    exact ⟨v, hrow⟩

lemma findRow_eq (h : Single t m) (hrow : t.rows.get? id = some [v]) :
    findRow v t.rows.items = .ok id := by
  have hmem := Dict.mem_items_iff.mpr hrow
  have hlen : ∀ p ∈ t.rows.items, p.2.length = 1 :=
    fun p hp => h.length p.2 (List.mem_map.mpr ⟨p, hp, rfl⟩)
  have hnodup := h.nodup
  rw [Dict.values] at hnodup
  generalize t.rows.items = items at hmem hlen hnodup
  induction items with
  | nil => cases hmem
  | cons p items ih =>
    obtain ⟨hp, hrest⟩ := List.forall_mem_cons.mp hlen
    rw [List.map_cons, List.nodup_cons] at hnodup
    obtain ⟨id', row⟩ := p
    obtain ⟨w, rfl : row = [w]⟩ := List.length_eq_one_iff.mp hp
    rw [findRow]
    change (if w = v then pure id' else findRow v items : Except PyError ℤ) = _
    rcases List.mem_cons.mp hmem with heq | hmem
    · obtain ⟨rfl, hv⟩ := Prod.mk.inj heq
      rw [if_pos (List.singleton_inj.mp hv).symm]
      rfl
    · have hne : w ≠ v := by
        rintro rfl
        exact hnodup.1 (List.mem_map.mpr ⟨_, hmem, rfl⟩)
      rw [if_neg hne]
      exact ih hmem hrest hnodup.2

/-- A value without a row is not found. -/
lemma findRow_none (h : Single t m) (hrow : ∀ id, t.rows.get? id ≠ some [v]) :
    findRow v t.rows.items = .ok (-1) := by
  have hitem : ∀ p ∈ t.rows.items, ∃ w, p.2 = [w] ∧ w ≠ v := by
    intro p hp
    obtain ⟨w, hw⟩ := h.exists_value (Dict.mem_items_iff.mp hp)
    refine ⟨w, hw, ?_⟩
    rintro rfl
    exact hrow p.1 (hw ▸ Dict.mem_items_iff.mp hp)
  generalize t.rows.items = items at hitem
  induction items with
  | nil => rfl
  | cons p items ih =>
    obtain ⟨⟨w, hw, hne⟩, hitems⟩ := List.forall_mem_cons.mp hitem
    obtain ⟨id, row⟩ := p
    obtain rfl : row = [w] := hw
    rw [findRow]
    change (if w = v then pure id else findRow v items : Except PyError ℤ) = _
    rw [if_neg hne]
    exact ih hitems

end Single

/-- The value is a row of the table of the parameter. -/
def At (mappings : Dict String Table) (name : String) (value : ℤ) : Prop :=
  ∃ t id, mappings.get? name = some t ∧ t.rows.get? id = some [value]

/-- Every entry is a row of the table of its parameter. -/
def Fits (mappings : Dict String Table) (embedding : List ℤ) : Prop :=
  List.Forall₂ (At mappings) parameters embedding

/-- The tables of all parameters. -/
def Singles (mappings : Dict String Table) : Prop :=
  ∀ name ∈ parameters, ∃ t m, mappings.get? name = some t ∧ Single t m

section Tables

variable {mappings : Dict String Table} {name target : String} {pos : ℕ} {value : ℤ}
  {e : List ℤ} {up : Bool}

lemma forall₂_getElem? {α β : Type} {R : α → β → Prop} {l : List α} {l' : List β} {a : α} {i : ℕ}
    (h : List.Forall₂ R l l') (hi : l[i]? = some a) : ∃ b, l'[i]? = some b ∧ R a b := by
  induction h generalizing i with
  | nil => simp at hi
  | @cons a' b l l' hab _ ih =>
    cases i with
    | zero =>
      obtain rfl : a' = a := by simpa using hi
      exact ⟨b, rfl, hab⟩
    | succ i => exact ih (by simpa using hi)

lemma forall₂_set {α β : Type} {R : α → β → Prop} {l : List α} {l' : List β} {a : α} {b : β} {i : ℕ}
    (h : List.Forall₂ R l l') (hi : l[i]? = some a) (hb : R a b) :
    List.Forall₂ R l (l'.set i b) := by
  induction h generalizing i with
  | nil => simp at hi
  | @cons a' b' l l' hab hl ih =>
    cases i with
    | zero =>
      obtain rfl : a' = a := by simpa using hi
      exact .cons hb hl
    | succ i => exact .cons hab (ih (by simpa using hi))

lemma Fits.length_eq (h : Fits mappings e) : e.length = 22 := (List.Forall₂.length_eq h).symm

lemma Fits.set (h : Fits mappings e) (hpos : parameters[pos]? = some name)
    (hvalue : At mappings name value) : Fits mappings (e.set pos value) :=
  forall₂_set h hpos hvalue

/-- Where `name` has a row to move to, `target` has it too, and its value is in the table `name`. -/
def Next (mappings : Dict String Table) (name target : String) (up : Bool) : Prop :=
  ∀ t m id, mappings.get? name = some t → Single t m → id ∈ t.rows.keys → movable up m id →
    ∃ t' w, mappings.get? target = some t' ∧
      t'.rows.get? (neighbour up id) = some [w] ∧ At mappings name w

/-- A table has the rows before and after its rows. -/
lemma next_self : Next mappings name name up := by
  intro t m id ht hsingle hid hmove
  have hrange := hsingle.mem_keys_iff.mp hid
  have hnext : 1 ≤ neighbour up id ∧ neighbour up id ≤ m := by
    cases up <;> simp [movable, neighbour] at hmove ⊢ <;> omega
  obtain ⟨w, hw⟩ := hsingle.get?_iff.mpr hnext
  exact ⟨t, w, ht, hw, t, _, ht, hw⟩

/-- What a move does: nothing at the end of the table, and otherwise one step in `target`. -/
lemma run_adjustFrom {t : Table} {m : ℕ} {id : ℤ} (he : e[pos]? = some value)
    (ht : mappings.get? name = some t) (hsingle : Single t m)
    (hrow : t.rows.get? id = some [value]) :
    (adjustFrom mappings name target pos up).run e =
      if movable up m id then
        match getMappingParams mappings target (neighbour up id) >>= (listItem · 0) with
        | .ok w      => (.ok true, e.set pos w)
        | .error err => (.error err, e)
      else (.ok false, e) := by
  have hidx : getIdx mappings name value = .ok id := by
    obtain ⟨d, hd⟩ := List.length_eq_one_iff.mp hsingle.description
    rw [getIdx, getItem_of_get? ht, ok_bind, hd]
    exact hsingle.findRow_eq hrow
  have hget : (getAt pos).run e = (.ok value, e) := by
    change (listItem e pos, e) = _
    rw [listItem, he]
  have hlt : pos < e.length := (List.getElem?_eq_some_iff.mp he).1
  have hset (w : ℤ) : (setAt pos w).run e = (.ok (), e.set pos w) := by
    rw [setAt, Exec.run_bind_ok (Exec.run_get e), if_pos hlt, Exec.run_modify]
  rw [adjustFrom, Exec.run_bind_ok hget, getItem_of_get? ht,
    Exec.run_bind_ok (Exec.run_ofExcept _ e), hidx, Exec.run_bind_ok (Exec.run_ofExcept _ e),
    hsingle.length_items]
  split_ifs
  · cases getMappingParams mappings target (neighbour up id) with
    | error err => rfl
    | ok row =>
      rw [Exec.run_bind_ok (Exec.run_ofExcept _ e), ok_bind]
      cases listItem row 0 with
      | error err => rfl
      | ok w =>
        rw [Exec.run_bind_ok (Exec.run_ofExcept _ e), Exec.run_bind_ok (hset w)]
        rfl
  · rfl

/-! ### Computations on embeddings that fit -/

/-- The computation keeps an embedding in the tables, and it stops only if `P` holds. -/
def Safe {α : Type} (mappings : Dict String Table) (P : Prop) (x : EmbeddingM α) : Prop :=
  ∀ e, Fits mappings e → x.wp (fun _ => Fits mappings) (fun _ _ => P) e

variable {P : Prop}

lemma safe_pure {α : Type} (a : α) : Safe mappings P (pure a) := fun _ he => he

lemma Safe.bind {α β : Type} {x : EmbeddingM α} {f : α → EmbeddingM β} (hx : Safe mappings P x)
    (hf : ∀ a, Safe mappings P (f a)) : Safe mappings P (x >>= f) := by
  intro e he
  rw [Exec.wp_bind]
  exact (hx e he).mono (fun a e' he' => hf a e' he') fun _ _ h => h

lemma safe_ite {α : Type} {c : Prop} [Decidable c] {x y : EmbeddingM α} (hx : Safe mappings P x)
    (hy : Safe mappings P y) : Safe mappings P (if c then x else y) := by
  by_cases h : c
  · rwa [if_pos h]
  · rwa [if_neg h]

lemma safe_adjustFrom (hsingles : Singles mappings) (hpos : parameters[pos]? = some name)
    (hnext : Next mappings name target up) :
    Safe mappings P (adjustFrom mappings name target pos up) := by
  intro e he
  obtain ⟨t, m, ht, hsingle⟩ := hsingles name (List.mem_of_getElem? hpos)
  obtain ⟨value, hvalue, t', id, ht', hrow⟩ := forall₂_getElem? he hpos
  obtain rfl : t = t' := Option.some.inj (ht.symm.trans ht')
  rw [Exec.wp, run_adjustFrom hvalue ht hsingle hrow]
  split_ifs with hmove
  · obtain ⟨t', w, ht', hw, hat⟩ := hnext t m id ht hsingle (Dict.mem_keys_of_get? hrow) hmove
    have hparams : getMappingParams mappings target (neighbour up id) = .ok [w] := by
      simp only [getMappingParams, getItem_of_get? ht', ok_bind, hw]
      rfl
    rw [hparams]
    exact he.set hpos hat
  · exact he

lemma safe_adjustParam (hsingles : Singles mappings) (hpos : parameters[pos]? = some name) :
    Safe mappings P (adjustParam mappings up name pos) :=
  safe_adjustFrom hsingles hpos next_self

lemma safe_adjustBp (hsingles : Singles mappings)
    (hnext : Next mappings "choicePredictorSize" "globalPredictorSize" up) :
    Safe mappings P (adjustBp mappings up) := by
  refine (safe_adjustParam hsingles rfl).bind fun _ => ?_
  refine (safe_adjustParam hsingles rfl).bind fun _ => ?_
  refine (safe_adjustFrom hsingles rfl hnext).bind fun _ => ?_
  refine (safe_adjustParam hsingles rfl).bind fun _ => ?_
  exact (safe_adjustParam hsingles rfl).bind fun _ => safe_pure _

lemma safe_adjustNamed (hsingles : Singles mappings)
    (hnext : Next mappings "choicePredictorSize" "globalPredictorSize" up) (name : String) :
    Safe mappings P (adjustNamed mappings up name) := by
  have hpair {name name' : String} {pos pos' : ℕ} (hpos : parameters[pos]? = some name)
      (hpos' : parameters[pos']? = some name') : Safe mappings P (do
        let size ← adjustParam mappings up name pos
        let assoc ← adjustParam mappings up name' pos'
        return size || assoc) :=
    (safe_adjustParam hsingles hpos).bind fun _ =>
      (safe_adjustParam hsingles hpos').bind fun _ => safe_pure _
  have hparam {name : String} {pos : ℕ} (hpos : parameters[pos]? = some name) :
      Safe mappings P (adjustParam mappings up name pos) := safe_adjustParam hsingles hpos
  refine safe_ite (hpair rfl rfl) (safe_ite (hpair rfl rfl)
    (safe_ite (safe_adjustBp hsingles hnext) ?_))
  -- the ten resources with one parameter
  refine safe_ite (hparam rfl) (safe_ite (hparam rfl) (safe_ite (hparam rfl) ?_))
  refine safe_ite (hparam rfl) (safe_ite (hparam rfl) (safe_ite (hparam rfl) ?_))
  refine safe_ite (hparam rfl) (safe_ite (hparam rfl) (safe_ite (hparam rfl) ?_))
  exact safe_ite (hparam rfl) (safe_pure false)

lemma safe_setAt (hpos : parameters[pos]? = some name) (hvalue : At mappings name value) :
    Safe mappings P (setAt pos value) := by
  intro e he
  have hlt : pos < e.length := by
    rw [← List.Forall₂.length_eq he]
    exact (List.getElem?_eq_some_iff.mp hpos).1
  rw [setAt, Exec.wp_bind, Exec.wp_get, if_pos hlt, Exec.wp_modify]
  exact he.set hpos hvalue

/-! ### The record of the sensitive components -/

/-- The record has as many configurations as contributions, and at least one. -/
def SensitiveComponent.Sound {Config : Type} (c : SensitiveComponent Config) : Prop :=
  c.contribution.length = c.configs.length ∧ c.contribution ≠ []

structure SensitiveComponentManager.Sound (scm : SensitiveComponentManager) : Prop where
  bp : scm.bp.Sound
  icache : scm.icache.Sound
  dcache : scm.dcache.Sound

@[simp] lemma updateTerminate_configs [Averaging] {Config : Type} (c : SensitiveComponent Config) :
    c.updateTerminate.configs = c.configs := by
  unfold SensitiveComponent.updateTerminate
  split_ifs
  · rfl
  · split
    · split_ifs <;> rfl
    · rfl

@[simp] lemma updateTerminate_contribution [Averaging] {Config : Type}
    (c : SensitiveComponent Config) : c.updateTerminate.contribution = c.contribution := by
  unfold SensitiveComponent.updateTerminate
  split_ifs
  · rfl
  · split
    · split_ifs <;> rfl
    · rfl

/-- The best configuration is one of the record, and a sound record has one. -/
lemma SensitiveComponent.best_cases {Config : Type} (c : SensitiveComponent Config) :
    (∃ config ∈ c.configs, c.best = .ok config) ∨ (∃ err, c.best = .error err) ∧ ¬ c.Sound := by
  by_cases hlen : c.contribution.length = c.configs.length
  · cases hmin : c.contribution.min? with
    | none =>
      refine .inr ⟨⟨_, by rw [best, if_neg (not_not.mpr hlen), hmin]⟩, fun hsound => ?_⟩
      exact hsound.2 (List.min?_eq_none_iff.mp hmin)
    | some least =>
      have hmem : least ∈ c.contribution := List.min?_mem hmin
      have hlt : c.contribution.findIdx (· = least) < c.configs.length := by
        rw [← hlen, List.findIdx_lt_length]
        exact ⟨least, hmem, by simp⟩
      refine .inl ⟨c.configs[c.contribution.findIdx (· = least)], List.getElem_mem hlt, ?_⟩
      rw [best, if_neg (not_not.mpr hlen), hmin]
      simp only [listItem, List.getElem?_eq_getElem hlt]
  · refine .inr ⟨⟨_, by rw [best, if_pos hlen]⟩, fun hsound => hlen hsound.1⟩

/-- The recorded configurations fit the tables. -/
structure Recorded (mappings : Dict String Table) (scm : SensitiveComponentManager) : Prop where
  bp : ∀ c ∈ scm.bp.configs, At mappings "localPredictorSize" c.1 ∧
    At mappings "globalPredictorSize" c.2.1 ∧ At mappings "choicePredictorSize" c.2.2
  icache : ∀ c ∈ scm.icache.configs, At mappings "l1i_size" c.1 ∧ At mappings "l1i_assoc" c.2
  dcache : ∀ c ∈ scm.dcache.configs, At mappings "l1d_size" c.1 ∧ At mappings "l1d_assoc" c.2

lemma safe_best {Config β : Type} {c : SensitiveComponent Config} {f : Config → EmbeddingM β}
    (hP : ¬ c.Sound → P) (hf : ∀ config ∈ c.configs, Safe mappings P (f config)) :
    Safe mappings P (Exec.ofExcept c.best >>= f) := by
  intro e he
  rw [Exec.wp_bind]
  rcases c.best_cases with ⟨config, hmem, hbest⟩ | ⟨⟨err, hbest⟩, hsound⟩
  · rw [hbest, Exec.wp_ofExcept_ok]
    exact hf config hmem e he
  · rw [hbest, Exec.wp_ofExcept_error]
    exact hP hsound

variable {scm : SensitiveComponentManager}

/-- Is the bottleneck that of a component that is terminated? -/
def terminated (scm : SensitiveComponentManager) (name : String) : Bool :=
  decide (name = Bottleneck.icacheMiss.name) && scm.icache.terminate ||
    decide (name = Bottleneck.dcacheMiss.name) && scm.dcache.terminate ||
    decide (name = Bottleneck.bpMiss.name) && scm.bp.terminate

lemma safe_increaseOne (hrec : Recorded mappings scm) (hP : ¬ scm.Sound → P) (name : String)
    (hadjust : terminated scm name = false → Safe mappings P (adjustNamed mappings true name)) :
    Safe mappings P (increaseOne mappings scm name) := by
  unfold increaseOne
  split_ifs with hi hd hb
  · refine Safe.bind (safe_best (fun h => hP fun hs => h hs.icache) fun c hc => ?_)
      fun _ => safe_pure _
    exact (safe_setAt rfl (hrec.icache c hc).1).bind fun _ => safe_setAt rfl (hrec.icache c hc).2
  · refine Safe.bind (safe_best (fun h => hP fun hs => h hs.dcache) fun c hc => ?_)
      fun _ => safe_pure _
    exact (safe_setAt rfl (hrec.dcache c hc).1).bind fun _ => safe_setAt rfl (hrec.dcache c hc).2
  · refine Safe.bind (safe_best (fun h => hP fun hs => h hs.bp) fun c hc => ?_)
      fun _ => safe_pure _
    exact (safe_setAt rfl (hrec.bp c hc).1).bind fun _ =>
      (safe_setAt rfl (hrec.bp c hc).2.1).bind fun _ => safe_setAt rfl (hrec.bp c hc).2.2
  · refine hadjust ?_
    have hnone := And.intro (And.intro hi hd) hb
    simpa [terminated] using hnone

lemma safe_increaseLoop {topK : ℤ} (h : ∀ name, Safe mappings P (increaseOne mappings scm name))
    (n : ℤ) (contribution : List (String × ℚ)) :
    Safe mappings P (increaseLoop mappings topK scm n contribution) := by
  induction contribution generalizing n with
  | nil => exact safe_pure ()
  | cons c rest ih =>
    rw [increaseLoop]
    split_ifs
    · exact safe_pure ()
    · exact (h c.1).bind fun _ => ih _

lemma Recorded.updateTerminate [Averaging] (h : Recorded mappings scm) :
    Recorded mappings scm.updateTerminate where
  bp := by simpa [SensitiveComponentManager.updateTerminate] using h.bp
  icache := by simpa [SensitiveComponentManager.updateTerminate] using h.icache
  dcache := by simpa [SensitiveComponentManager.updateTerminate] using h.dcache

lemma SensitiveComponentManager.Sound.updateTerminate [Averaging] (h : scm.Sound) :
    scm.updateTerminate.Sound where
  bp := by simpa [SensitiveComponentManager.updateTerminate, SensitiveComponent.Sound] using h.bp
  icache := by
    simpa [SensitiveComponentManager.updateTerminate, SensitiveComponent.Sound] using h.icache
  dcache := by
    simpa [SensitiveComponentManager.updateTerminate, SensitiveComponent.Sound] using h.dcache

lemma safe_increase [Averaging] {topK : ℤ} (hsingles : Singles mappings)
    (hnext : Next mappings "choicePredictorSize" "globalPredictorSize" true)
    (hrec : Recorded mappings scm) (hP : ¬ scm.Sound → P) (contribution : List (String × ℚ)) :
    Safe mappings P (increaseHardwareResource mappings topK scm contribution) :=
  safe_increaseLoop (fun name => safe_increaseOne hrec.updateTerminate
    (fun hsound => hP fun h => hsound h.updateTerminate) name
    fun _ => safe_adjustNamed hsingles hnext name) 0 contribution

lemma safe_decrease {topK : ℤ} (hsingles : Singles mappings)
    (hnext : Next mappings "choicePredictorSize" "globalPredictorSize" false)
    (hP : topK < 0 → P) (contribution : List (String × ℚ)) (sample : List String) :
    Safe mappings P (decreaseHardwareResourceV2 mappings topK contribution sample) := by
  intro e he
  rw [decreaseHardwareResourceV2]
  split_ifs with hneg
  · rw [sampleSize] at hneg
    exact hP (by split_ifs at hneg <;> omega)
  · exact Exec.wp_forM (fun name _ e he =>
      ((safe_adjustNamed hsingles hnext name).bind fun _ => safe_pure _) e he) he

end Tables

/-! ### Designs and embeddings that fit -/

/-- A component of one parameter, with all rows of its table as candidates. -/
def OneParameter (mappings : Dict String Table) (p : String × List ℤ) : Prop :=
  ∃ t m, mappings.get? p.1 = some t ∧ Single t m ∧ ∀ id, id ∈ p.2 ↔ id ∈ t.rows.keys

/-- A space of one design over the parameters, whose size is the number of its vectors. -/
structure Explorable (s : O3CPUDesignSpace) : Prop where
  one : s.descriptions.items.length = 1
  names : s.components = parameters
  size : s.size = (dimsOf s.design.items).prod
  single : ∀ p ∈ s.design.items, OneParameter s.componentsMappings p

section Components

variable {mappings : Dict String Table} {design : Dict String (List ℤ)}
  {l : List (String × List ℤ)} {ds : List ℕ} {ids : List ℤ} {rows : List (List ℤ)} {e : List ℤ}

lemma OneParameter.tabled {p : String × List ℤ} (h : OneParameter mappings p) :
    Tabled mappings p.1 p.2 := by
  obtain ⟨t, m, ht, hsingle, hids⟩ := h
  refine ⟨t, ht, fun id hid => (hids id).mp hid, hsingle.nodup, fun row hrow => ?_⟩
  rw [hsingle.length row hrow, hsingle.description]

/-- The rows of a choice fit. -/
lemma fits_of_encoded (h : Encoded mappings l ds ids rows)
    (hl : ∀ p ∈ l, OneParameter mappings p) :
    List.Forall₂ (At mappings) (l.map Prod.fst) rows.flatten := by
  induction h with
  | nil => exact .nil
  | @cons c _ t _ id row _ _ _ _ ht _ hrow _ ih =>
    obtain ⟨⟨t', m, ht', hsingle, -⟩, hl⟩ := List.forall_mem_cons.mp hl
    obtain rfl : t = t' := Option.some.inj (ht.symm.trans ht')
    obtain ⟨v, rfl⟩ := hsingle.exists_value hrow
    exact .cons ⟨t, id, ht, hrow⟩ (ih hl)

/-- An embedding that fits is a choice of candidates, at the positions that are found for them. -/
lemma encoded_of_fits (h : List.Forall₂ (At mappings) (l.map Prod.fst) e)
    (hl : ∀ p ∈ l, OneParameter mappings p) (hget : ∀ p ∈ l, design.get? p.1 = some p.2) :
    ∃ ds ids, Encoded mappings l ds ids (e.map fun v => [v]) ∧
      indexCandidates design (l.map Prod.fst) (ids.map fun id => some (.row id)) = .ok ds := by
  induction l generalizing e with
  | nil =>
    cases h
    exact ⟨[], [], .nil, rfl⟩
  | cons p l ih =>
    obtain ⟨⟨t, m, ht, hsingle, hids⟩, hl⟩ := List.forall_mem_cons.mp hl
    obtain ⟨hp, hget⟩ := List.forall_mem_cons.mp hget
    cases h with
    | @cons _ v _ e hat h =>
      obtain ⟨t', id, ht', hrow⟩ := hat
      obtain rfl : t = t' := Option.some.inj (ht.symm.trans ht')
      obtain ⟨ds, ids, henc, hindex⟩ := ih h hl hget
      have hmem : id ∈ p.2 := (hids id).mpr (Dict.mem_keys_of_get? hrow)
      have hsome : (p.2.findIdx? (· = id)).isSome := by
        rw [List.findIdx?_isSome, List.any_eq_true]
        exact ⟨id, hmem, by simp⟩
      obtain ⟨d, hd⟩ := Option.isSome_iff_exists.mp hsome
      obtain ⟨hlt, hval, -⟩ := List.findIdx?_eq_some_iff_getElem.mp hd
      have hgetd : p.2[d]? = some id :=
        List.getElem?_eq_some_iff.mpr ⟨hlt, by simpa using hval⟩
      refine ⟨d :: ds, id :: ids, .cons ht hgetd hrow henc, ?_⟩
      simp only [List.map_cons, indexCandidates, getItem_of_get? hp, ok_bind, indexOf, hd, hindex]
      rfl

/-- The way back from an embedding succeeds only if it fits. -/
lemma fits_of_indexCandidates {vec : List (Option Key)} (hlen : e.length = l.length)
    (hl : ∀ p ∈ l, OneParameter mappings p) (hget : ∀ p ∈ l, design.get? p.1 = some p.2)
    (hvec : embeddingToVec mappings (l.map Prod.fst) e = .ok vec)
    (hindex : indexCandidates design (l.map Prod.fst) vec = .ok ds) :
    List.Forall₂ (At mappings) (l.map Prod.fst) e := by
  induction l generalizing e vec ds with
  | nil =>
    rw [List.length_nil, List.length_eq_zero_iff] at hlen
    exact hlen ▸ .nil
  | cons p l ih =>
    obtain ⟨⟨t, m, ht, hsingle, -⟩, hl⟩ := List.forall_mem_cons.mp hl
    obtain ⟨hp, hget⟩ := List.forall_mem_cons.mp hget
    obtain ⟨v, e, rfl⟩ := List.exists_cons_of_length_eq_add_one hlen
    have hlen' : [v].length = t.description.length := hsingle.description.symm
    obtain ⟨vec, hrest, heq⟩ := bind_eq_ok ((embeddingToVec_cons _ e ht hlen').symm.trans hvec)
    obtain rfl := Except.ok.inj heq
    rw [List.map_cons, indexCandidates, getItem_of_get? hp, ok_bind] at hindex
    obtain ⟨i, hi, hindex⟩ := bind_eq_ok hindex
    obtain ⟨ds, hds, -⟩ := bind_eq_ok hindex
    refine .cons ?_ (ih (by simpa using hlen) hl hget hrest hds)
    cases hfind : t.rows.items.find? fun q => decide ([v] = q.2) with
    | none =>
      rw [getMappingIdx, if_neg (by simp), hfind] at hi
      cases hi
    | some q =>
      have hq : [v] = q.2 := by simpa using List.find?_some hfind
      refine ⟨t, q.1, ht, ?_⟩
      rw [hq]
      exact Dict.mem_items_iff.mp (List.mem_of_find?_eq_some hfind)

end Components

namespace Explorable

variable {s : O3CPUDesignSpace} {e : List ℤ} {i : ℤ}

/-- A size that is the number of vectors is below the limit of 64 bits. -/
lemma counted (h : Explorable s) : s.Counted where
  one := h.one
  nonempty p hp := by
    obtain ⟨t, m, -, hsingle, hids⟩ := h.single p hp
    have hone : (1 : ℤ) ∈ p.2 := (hids 1).mpr (hsingle.mem_keys_iff.mpr ⟨le_rfl, by
      exact_mod_cast hsingle.pos⟩)
    exact List.ne_nil_of_mem hone
  small := by
    obtain ⟨p, hp⟩ := List.length_eq_one_iff.mp h.one
    have hdims : constructComponentDims s.descriptions = [dimsOf s.design.items] := by
      simp [constructComponentDims, Dict.values, O3CPUDesignSpace.design, hp, dimsOf]
    have hsum : npProd (dimsOf s.design.items) = (dimsOf s.design.items).prod := by
      rw [← h.size, ← s.size_eq, constructDesignSize, hdims, List.map_singleton,
        O3CPUDesignSpace.Counted.npSum_singleton]
    have hlt := O3CPUDesignSpace.Counted.npProd_lt (dimsOf s.design.items)
    rw [hsum] at hlt
    exact Nat.cast_lt.mp (hlt.trans_eq (Nat.cast_pow 2 63).symm)

lemma tabled (h : Explorable s) :
    ∀ p ∈ s.design.items, Tabled s.componentsMappings p.1 p.2 :=
  fun p hp => (h.single p hp).tabled

lemma singles (h : Explorable s) : Singles s.componentsMappings := by
  intro name hname
  rw [← h.names] at hname
  obtain ⟨p, hp, rfl⟩ := List.mem_map.mp hname
  obtain ⟨t, m, ht, hsingle, -⟩ := h.single p hp
  exact ⟨t, m, ht, hsingle⟩

lemma described (h : Explorable s) : Described s.componentsMappings s.components := by
  intro name hname t ht
  rw [h.names] at hname
  obtain ⟨t', m, ht', hsingle⟩ := h.singles name hname
  obtain rfl : t = t' := Option.some.inj (ht.symm.trans ht')
  rw [← List.length_pos_iff, hsingle.description]
  exact one_pos

lemma fits_iff (h : Explorable s) : Fits s.componentsMappings e ↔
    List.Forall₂ (At s.componentsMappings) (s.design.items.map Prod.fst) e := by
  have hnames : s.design.items.map Prod.fst = parameters := h.names
  rw [Fits, hnames]

/-- Every index has an embedding that fits. -/
lemma fits_of_idx (h : Explorable s) (hpos : 1 ≤ i) (hle : i ≤ s.size) :
    ∃ e, s.idxToEmbedding i = .ok e ∧ Fits s.componentsMappings e := by
  obtain ⟨ds, ids, rows, henc, rfl⟩ := h.counted.exists_value h.tabled hpos hle
  exact ⟨_, h.counted.idxToEmbedding henc, h.fits_iff.mpr (fits_of_encoded henc h.single)⟩

/-- An embedding that fits is a design. -/
lemma idx_of_fits (h : Explorable s) (he : Fits s.componentsMappings e) :
    ∃ i, 1 ≤ i ∧ i ≤ s.size ∧ s.embeddingToIdx e = .ok i ∧ s.idxToEmbedding i = .ok e := by
  obtain ⟨ds, ids, henc, hindex⟩ := encoded_of_fits (h.fits_iff.mp he) h.single
    O3CPUDesignSpace.Counted.design_get?
  have hflatten : (e.map fun v => [v]).flatten = e := by
    rw [← List.flatMap_def, List.flatMap_singleton']
  have hvec : embeddingToVec s.componentsMappings s.components e =
      .ok (ids.map fun id => some (.row id)) := by
    rw [← hflatten]
    exact henc.embeddingToVec h.tabled h.described
  have hlt := MixedRadix.value_lt henc.positions
  refine ⟨MixedRadix.value (dimsOf s.design.items) ds + 1, by omega, ?_, ?_, ?_⟩
  · rw [h.size]
    omega
  · rw [O3CPUDesignSpace.embeddingToIdx, hvec]
    exact h.counted.vecToIdx hindex henc.positions
  · rw [h.counted.idxToEmbedding henc, hflatten]

lemma fits_of_embeddingToIdx (h : Explorable s) (hlen : e.length = 22)
    (hi : s.embeddingToIdx e = .ok i) : Fits s.componentsMappings e := by
  obtain ⟨name, hname, hdesign⟩ := h.counted.getItem_design
  have hlength : e.length = s.design.items.length := by
    have hnames : s.design.items.map Prod.fst = parameters := h.names
    rw [hlen, ← List.length_map Prod.fst, hnames]
    rfl
  rw [O3CPUDesignSpace.embeddingToIdx] at hi
  obtain ⟨vec, hvec, hi⟩ := bind_eq_ok hi
  rw [O3CPUDesignSpace.vecToIdx, hname, ok_bind, hdesign, ok_bind] at hi
  obtain ⟨ds, hindex, -⟩ := bind_eq_ok hi
  exact h.fits_iff.mpr (fits_of_indexCandidates hlength h.single
    O3CPUDesignSpace.Counted.design_get? hvec hindex)

end Explorable

/-! ### The removal -/

/-- The recorded configurations are those of designs of the space. -/
structure FromDesigns (s : O3CPUDesignSpace) (scm : SensitiveComponentManager) : Prop where
  bp : ∀ c ∈ scm.bp.configs, ∃ i e, 1 ≤ i ∧ i ≤ s.size ∧ s.idxToEmbedding i = .ok e ∧
    e[3]? = some c.1 ∧ e[4]? = some c.2.1 ∧ e[5]? = some c.2.2
  icache : ∀ c ∈ scm.icache.configs, ∃ i e, 1 ≤ i ∧ i ≤ s.size ∧ s.idxToEmbedding i = .ok e ∧
    e[18]? = some c.1 ∧ e[19]? = some c.2
  dcache : ∀ c ∈ scm.dcache.configs, ∃ i e, 1 ≤ i ∧ i ≤ s.size ∧ s.idxToEmbedding i = .ok e ∧
    e[20]? = some c.1 ∧ e[21]? = some c.2

/-- The embedding is converted to an index of the space. -/
def IsDesign (s : O3CPUDesignSpace) (e : List ℤ) : Prop :=
  ∃ i, s.embeddingToIdx e = .ok i ∧ 1 ≤ i ∧ i ≤ s.size

/-- Every embedding that the removal returns is a design, and it returns one if the records are
sound and `topK` is not negative. -/
def Stays [Averaging] (s : O3CPUDesignSpace) : Prop :=
  ∀ (idx : ℤ) (contribution : List (String × ℚ)) (scm : SensitiveComponentManager) (topK : ℤ)
    (sample : List String), 1 ≤ idx → idx ≤ s.size → FromDesigns s scm →
    IsSample (idle contribution) (sampleSize topK (idle contribution)) sample ∨ topK < 0 →
    (∀ e, (bottleneckRemoval s topK sample scm idx contribution).1 = .ok e → IsDesign s e) ∧
      (scm.Sound → 0 ≤ topK →
        ∃ e, (bottleneckRemoval s topK sample scm idx contribution).1 = .ok e)

/-- The table of the global predictor can stand in for the table of the choice predictor: wherever
the latter has a next or a previous row, the former has this row, with a value of the latter. -/
def Interchangeable (s : O3CPUDesignSpace) : Prop :=
  ∀ up, Next s.componentsMappings "choicePredictorSize" "globalPredictorSize" up

namespace Explorable

variable {s : O3CPUDesignSpace} {scm : SensitiveComponentManager} {e : List ℤ}

lemma at_of_design (h : Explorable s) {i : ℤ} {pos : ℕ} {name : String} {v : ℤ} (hpos : 1 ≤ i)
    (hle : i ≤ s.size) (hi : s.idxToEmbedding i = .ok e) (hname : parameters[pos]? = some name)
    (hv : e[pos]? = some v) : At s.componentsMappings name v := by
  obtain ⟨e', he', hfits⟩ := h.fits_of_idx hpos hle
  obtain rfl : e = e' := Except.ok.inj (hi.symm.trans he')
  obtain ⟨w, hw, hat⟩ := forall₂_getElem? hfits hname
  obtain rfl : v = w := Option.some.inj (hv.symm.trans hw)
  exact hat

lemma recorded (h : Explorable s) (hscm : FromDesigns s scm) :
    Recorded s.componentsMappings scm where
  bp c hc := by
    obtain ⟨i, e, hpos, hle, hi, hlp, hgp, hcp⟩ := hscm.bp c hc
    exact ⟨h.at_of_design hpos hle hi rfl hlp, h.at_of_design hpos hle hi rfl hgp,
      h.at_of_design hpos hle hi rfl hcp⟩
  icache c hc := by
    obtain ⟨i, e, hpos, hle, hi, hsize, hassoc⟩ := hscm.icache c hc
    exact ⟨h.at_of_design hpos hle hi rfl hsize, h.at_of_design hpos hle hi rfl hassoc⟩
  dcache c hc := by
    obtain ⟨i, e, hpos, hle, hi, hsize, hassoc⟩ := hscm.dcache c hc
    exact ⟨h.at_of_design hpos hle hi rfl hsize, h.at_of_design hpos hle hi rfl hassoc⟩

lemma isDesign_of_fits (h : Explorable s) (he : Fits s.componentsMappings e) : IsDesign s e := by
  obtain ⟨i, hpos, hle, hi, -⟩ := h.idx_of_fits he
  exact ⟨i, hi, hpos, hle⟩

/-- Interchangeable tables keep the removal in the space, whatever the sample. -/
lemma removal_isDesign [Averaging] (h : Explorable s) (hnext : Interchangeable s) {idx : ℤ}
    (hpos : 1 ≤ idx) (hle : idx ≤ s.size) (hscm : FromDesigns s scm) (topK : ℤ)
    (sample : List String) (contribution : List (String × ℚ)) :
    (∀ e, (bottleneckRemoval s topK sample scm idx contribution).1 = .ok e → IsDesign s e) ∧
      (scm.Sound → 0 ≤ topK →
        ∃ e, (bottleneckRemoval s topK sample scm idx contribution).1 = .ok e) := by
  obtain ⟨e, he, hfits⟩ := h.fits_of_idx hpos hle
  have hsafe : Safe s.componentsMappings (¬ (scm.Sound ∧ 0 ≤ topK)) (do
      increaseHardwareResource s.componentsMappings topK scm contribution
      decreaseHardwareResourceV2 s.componentsMappings topK contribution sample) :=
    (safe_increase h.singles (hnext true) (h.recorded hscm) (fun hs hsk => hs hsk.1) _).bind
      fun _ => safe_decrease h.singles (hnext false) (fun hneg hsk => by omega) _ _
  have hrun := hsafe e hfits
  rw [Exec.wp] at hrun
  simp only [bottleneckRemoval, he]
  generalize Exec.run _ e = result at hrun ⊢
  obtain ⟨err | _, e'⟩ := result
  · exact ⟨fun e'' heq => (by cases heq), fun hsound hk => absurd ⟨hsound, hk⟩ hrun⟩
  · refine ⟨fun e'' heq => ?_, fun _ _ => ⟨e', rfl⟩⟩
    obtain rfl : e' = e'' := Except.ok.inj heq
    exact h.isDesign_of_fits hrun

lemma stays [Averaging] (h : Explorable s) (hnext : Interchangeable s) : Stays s :=
  fun _ contribution _ topK sample hpos hle hscm _ =>
    h.removal_isDesign hnext hpos hle hscm topK sample contribution

end Explorable

/-! ### Tables that cannot be interchanged -/

section Choice

variable {mappings : Dict String Table} {name : String} {pos : ℕ} {up : Bool} {e e' : List ℤ}

/-- A move along a table returns and touches no other entry. -/
lemma adjustParam_returns (up : Bool) (hsingles : Singles mappings) (hname : name ∈ parameters)
    {v : ℤ} (he : e[pos]? = some v) (hat : At mappings name v) :
    ∃ b e', (adjustParam mappings up name pos).run e = (.ok b, e') ∧ e'.length = e.length ∧
      ∀ j, j ≠ pos → e'[j]? = e[j]? := by
  obtain ⟨t, m, ht, hsingle⟩ := hsingles name hname
  obtain ⟨t', id, ht', hrow⟩ := hat
  obtain rfl : t = t' := Option.some.inj (ht.symm.trans ht')
  rw [adjustParam, run_adjustFrom he ht hsingle hrow]
  split_ifs with hmove
  · obtain ⟨t', w, ht', hw, -⟩ := next_self t m id ht hsingle (Dict.mem_keys_of_get? hrow) hmove
    have hparams : getMappingParams mappings name (neighbour up id) = .ok [w] := by
      simp only [getMappingParams, getItem_of_get? ht', ok_bind, hw]
      rfl
    rw [hparams]
    refine ⟨true, e.set pos w, rfl, List.length_set, fun j hj => ?_⟩
    rw [List.getElem?_set_ne hj.symm]
  · exact ⟨false, e, rfl, rfl, fun _ _ => rfl⟩

/-- The choice predictor gets the neighbouring row of the global predictor. -/
lemma adjustBp_choice (hsingles : Singles mappings) (hfits : Fits mappings e) {b : Bool} {t : Table}
    {m : ℕ} {id v : ℤ} (ht : mappings.get? "choicePredictorSize" = some t) (hsingle : Single t m)
    (hrow : t.rows.get? id = some [v]) (he : e[5]? = some v) (hmove : movable up m id)
    (hrun : (adjustBp mappings up).run e = (.ok b, e')) :
    ∃ t' w, mappings.get? "globalPredictorSize" = some t' ∧
      t'.rows.get? (neighbour up id) = some [w] ∧ e'.length = e.length ∧ e'[5]? = some w := by
  have hentry (pos : ℕ) {name : String} (hpos : parameters[pos]? = some name) :
      ∃ v, e[pos]? = some v ∧ At mappings name v := forall₂_getElem? hfits hpos
  obtain ⟨v₃, hv₃, hat₃⟩ := hentry 3 rfl
  obtain ⟨v₄, hv₄, hat₄⟩ := hentry 4 rfl
  obtain ⟨v₆, hv₆, hat₆⟩ := hentry 6 rfl
  obtain ⟨v₇, hv₇, hat₇⟩ := hentry 7 rfl
  obtain ⟨b₃, e₃, hrun₃, hlen₃, heq₃⟩ := adjustParam_returns up hsingles (by decide) hv₃ hat₃
  obtain ⟨b₄, e₄, hrun₄, hlen₄, heq₄⟩ := adjustParam_returns up hsingles (by decide)
    ((heq₃ 4 (by decide)).trans hv₄) hat₄
  have he₄ {j : ℕ} (h₃ : j ≠ 3) (h₄ : j ≠ 4) : e₄[j]? = e[j]? := (heq₄ j h₄).trans (heq₃ j h₃)
  rw [adjustBp, Exec.run_bind_ok hrun₃, Exec.run_bind_ok hrun₄, Exec.run_bind,
    run_adjustFrom ((he₄ (by decide) (by decide)).trans he) ht hsingle hrow, if_pos hmove] at hrun
  obtain ⟨t', m', ht', hsingle'⟩ := hsingles "globalPredictorSize" (by decide)
  cases hget : t'.rows.get? (neighbour up id) with
  | none =>
    simp only [getMappingParams, getItem_of_get? ht', ok_bind, hget, error_bind] at hrun
    cases hrun
  | some row =>
    obtain ⟨w, rfl⟩ := hsingle'.exists_value hget
    have hparams : getMappingParams mappings "globalPredictorSize" (neighbour up id) = .ok [w] := by
      simp only [getMappingParams, getItem_of_get? ht', ok_bind, hget]
      rfl
    have he₅ {j : ℕ} (h₅ : j ≠ 5) : (e₄.set 5 w)[j]? = e₄[j]? := List.getElem?_set_ne h₅.symm
    obtain ⟨b₆, e₆, hrun₆, hlen₆, heq₆⟩ := adjustParam_returns up hsingles (by decide)
      ((he₅ (by decide)).trans ((he₄ (by decide) (by decide)).trans hv₆)) hat₆
    obtain ⟨b₇, e₇, hrun₇, hlen₇, heq₇⟩ := adjustParam_returns up hsingles (by decide)
      ((heq₆ 7 (by decide)).trans
        ((he₅ (by decide)).trans ((he₄ (by decide) (by decide)).trans hv₇))) hat₇
    rw [hparams, ok_bind] at hrun
    change (adjustParam mappings up "RASSize" 6 >>= _).run (e₄.set 5 w) = _ at hrun
    rw [Exec.run_bind_ok hrun₆, Exec.run_bind_ok hrun₇] at hrun
    obtain rfl : e₇ = e' := (Prod.mk.inj hrun).2
    refine ⟨t', w, ht', hget, by rw [hlen₇, hlen₆, List.length_set, hlen₄, hlen₃], ?_⟩
    have hlt : 5 < e₄.length :=
      (List.getElem?_eq_some_iff.mp ((he₄ (by decide) (by decide)).trans he)).1
    rw [heq₇ 5 (by decide), heq₆ 5 (by decide), List.getElem?_set_self hlt]

end Choice

/-- Records of one configuration each, of which that of the predictor may be terminated. -/
def resting (terminate : Bool) (bp : ℤ × ℤ × ℤ) (icache dcache : ℤ × ℤ) :
    SensitiveComponentManager where
  bp := ⟨terminate, [bp], [0], some 0⟩
  icache := ⟨false, [icache], [0], some 0⟩
  dcache := ⟨false, [dcache], [0], some 0⟩

/-- The same records with other averages. -/
def rested (last : Option ℚ) (terminate : Bool) (bp : ℤ × ℤ × ℤ) (icache dcache : ℤ × ℤ) :
    SensitiveComponentManager where
  bp := ⟨terminate, [bp], [0], last⟩
  icache := ⟨false, [icache], [0], last⟩
  dcache := ⟨false, [dcache], [0], last⟩

lemma resting_updateTerminate [Averaging] (terminate : Bool) (bp : ℤ × ℤ × ℤ)
    (icache dcache : ℤ × ℤ) : (resting terminate bp icache dcache).updateTerminate =
      rested (some (Averaging.average [0])) terminate bp icache dcache := rfl

lemma resting_sound (terminate : Bool) (bp : ℤ × ℤ × ℤ) (icache dcache : ℤ × ℤ) :
    (resting terminate bp icache dcache).Sound :=
  ⟨⟨rfl, List.cons_ne_nil _ _⟩, ⟨rfl, List.cons_ne_nil _ _⟩, ⟨rfl, List.cons_ne_nil _ _⟩⟩

section Removal

variable {s : O3CPUDesignSpace} {idx : ℤ} {e e' : List ℤ} {bp : ℤ × ℤ × ℤ} {icache dcache : ℤ × ℤ}

/-- A removal that returns has run through both passes. -/
lemma removal_inv [Averaging] {topK : ℤ} {sample : List String} {scm : SensitiveComponentManager}
    {contribution : List (String × ℚ)} (he : s.idxToEmbedding idx = .ok e)
    (h : (bottleneckRemoval s topK sample scm idx contribution).1 = .ok e') :
    ∃ e₁, (increaseHardwareResource s.componentsMappings topK scm contribution).run e =
        (.ok (), e₁) ∧
      (decreaseHardwareResourceV2 s.componentsMappings topK contribution sample).run e₁ =
        (.ok (), e') := by
  simp only [bottleneckRemoval, he] at h
  rcases hrun : (do
      increaseHardwareResource s.componentsMappings topK scm contribution
      decreaseHardwareResourceV2 s.componentsMappings topK contribution sample :
        EmbeddingM Unit).run e with ⟨err | _, e₂⟩
  · rw [hrun] at h
    cases h
  · rw [hrun] at h
    obtain rfl : e₂ = e' := Except.ok.inj h
    obtain ⟨_, e₁, hrun₁, hrun₂⟩ := Exec.run_bind_eq_ok hrun
    exact ⟨e₁, hrun₁, hrun₂⟩

/-- With the predictor as the only bottleneck, the removal is one adjustment upwards. -/
lemma removal_up [Averaging] (he : s.idxToEmbedding idx = .ok e)
    (h : (bottleneckRemoval s 1 [] (resting false bp icache dcache) idx
      [(Bottleneck.bpMiss.name, 1)]).1 = .ok e') :
    ∃ b, (adjustBp s.componentsMappings true).run e = (.ok b, e') := by
  obtain ⟨e₁, hup, hdown⟩ := removal_inv he h
  have hidle : sampleSize 1 (idle [(Bottleneck.bpMiss.name, 1)]) = 0 := by decide
  rw [decreaseHardwareResourceV2, hidle, if_neg (lt_irrefl 0)] at hdown
  obtain rfl : e₁ = e' := (Prod.mk.inj hdown).2
  rw [increaseHardwareResource, resting_updateTerminate, increaseLoop, if_neg (by decide)] at hup
  obtain ⟨b, e₂, hrun, hnil⟩ := Exec.run_bind_eq_ok hup
  obtain rfl : e₂ = e₁ := (Prod.mk.inj hnil).2
  exact ⟨b, hrun⟩

/-- A terminated predictor is set back and then adjusted downwards if it contributes nothing. -/
lemma removal_down [Averaging] (he : s.idxToEmbedding idx = .ok e) (hlp : e[3]? = some bp.1)
    (hgp : e[4]? = some bp.2.1) (hcp : e[5]? = some bp.2.2)
    (h : (bottleneckRemoval s 1 [Bottleneck.bpMiss.name] (resting true bp icache dcache) idx
      [(Bottleneck.bpMiss.name, 0)]).1 = .ok e') :
    ∃ b, (adjustBp s.componentsMappings false).run e = (.ok b, e') := by
  obtain ⟨e₁, hup, hdown⟩ := removal_inv he h
  have hset {pos : ℕ} {v : ℤ} (hv : e[pos]? = some v) : (setAt pos v).run e = (.ok (), e) := by
    obtain ⟨hlt, rfl⟩ := List.getElem?_eq_some_iff.mp hv
    rw [setAt, Exec.run_bind_ok (Exec.run_get e), if_pos hlt, Exec.run_modify,
      List.set_getElem_self]
  have hfallback (last : Option ℚ) :
      (fallbackBpConfig (rested last true bp icache dcache)).run e = (.ok (), e) := by
    change (setAt 3 bp.1 >>= _).run e = _
    rw [Exec.run_bind_ok (hset hlp), Exec.run_bind_ok (hset hgp), hset hcp]
  have hfalse (last : Option ℚ) : (fallbackBpConfig (rested last true bp icache dcache) >>=
      fun _ => pure false).run e = (.ok false, e) := Exec.run_bind_ok (hfallback last) _
  rw [increaseHardwareResource, resting_updateTerminate, increaseLoop, if_neg (by decide)] at hup
  obtain rfl : e = e₁ := (Prod.mk.inj ((Exec.run_bind_ok (hfalse _) _).symm.trans hup)).2
  have hidle : sampleSize 1 (idle [(Bottleneck.bpMiss.name, 0)]) = 1 := by decide
  rw [decreaseHardwareResourceV2, hidle, if_neg (by decide), List.forM_cons] at hdown
  obtain ⟨_, e₂, hrun, hnil⟩ := Exec.run_bind_eq_ok hdown
  obtain rfl : e₂ = e' := (Prod.mk.inj hnil).2
  obtain ⟨b, e₃, hbp, hpure⟩ := Exec.run_bind_eq_ok hrun
  obtain rfl : e₃ = e₂ := (Prod.mk.inj hpure).2
  exact ⟨b, hbp⟩

end Removal

/-- In a space over the parameters the search stays in the space if and only if the tables of the
two predictors can be interchanged. -/
theorem stays_iff [Averaging] (s : O3CPUDesignSpace) (h : Explorable s) :
    Stays s ↔ Interchangeable s := by
  refine ⟨fun hstays up => ?_, h.stays⟩
  intro t m id ht hsingle hid hmove
  -- a design whose choice predictor is in the row `id`
  obtain ⟨v, hrow⟩ := hsingle.get?_iff.mpr (hsingle.mem_keys_iff.mp hid)
  have hsize : 1 ≤ s.size := by
    have hprod : 0 < (dimsOf s.design.items).prod := List.prod_pos h.counted.dims_pos
    rw [h.size]
    omega
  obtain ⟨e₀, -, hfits₀⟩ := h.fits_of_idx le_rfl hsize
  have hat : At s.componentsMappings "choicePredictorSize" v := ⟨t, id, ht, hrow⟩
  have hfits : Fits s.componentsMappings (e₀.set 5 v) := hfits₀.set rfl hat
  obtain ⟨idx, hpos, hle, -, hidx⟩ := h.idx_of_fits hfits
  have he₅ : (e₀.set 5 v)[5]? = some v :=
    List.getElem?_set_self (by rw [hfits₀.length_eq]; decide)
  generalize e₀.set 5 v = e at hfits hidx he₅
  have hentry (pos : ℕ) {name : String} (hname : parameters[pos]? = some name) :
      ∃ v, e[pos]? = some v ∧ At s.componentsMappings name v := forall₂_getElem? hfits hname
  obtain ⟨lp, hlp, -⟩ := hentry 3 rfl
  obtain ⟨gp, hgp, -⟩ := hentry 4 rfl
  obtain ⟨isize, hisize, -⟩ := hentry 18 rfl
  obtain ⟨iassoc, hiassoc, -⟩ := hentry 19 rfl
  obtain ⟨dsize, hdsize, -⟩ := hentry 20 rfl
  obtain ⟨dassoc, hdassoc, -⟩ := hentry 21 rfl
  -- it is the only design that was recorded
  have hscm (terminate : Bool) :
      FromDesigns s (resting terminate (lp, gp, v) (isize, iassoc) (dsize, dassoc)) := by
    refine ⟨fun c hc => ?_, fun c hc => ?_, fun c hc => ?_⟩ <;>
      obtain rfl := List.mem_singleton.mp hc
    · exact ⟨idx, e, hpos, hle, hidx, hlp, hgp, he₅⟩
    · exact ⟨idx, e, hpos, hle, hidx, hisize, hiassoc⟩
    · exact ⟨idx, e, hpos, hle, hidx, hdsize, hdassoc⟩
  have hrun : ∃ b e', (adjustBp s.componentsMappings up).run e = (.ok b, e') ∧ IsDesign s e' := by
    cases up with
    | true =>
      obtain ⟨hdesign, hreturns⟩ := hstays idx [(Bottleneck.bpMiss.name, 1)] _ 1 [] hpos hle
        (hscm false) (.inl ⟨List.nil_subperm, by decide⟩)
      obtain ⟨e', he'⟩ := hreturns (resting_sound _ _ _ _) zero_le_one
      obtain ⟨b, hb⟩ := removal_up hidx he'
      exact ⟨b, e', hb, hdesign e' he'⟩
    | false =>
      obtain ⟨hdesign, hreturns⟩ := hstays idx [(Bottleneck.bpMiss.name, 0)] _ 1
        [Bottleneck.bpMiss.name] hpos hle (hscm true) (.inl ⟨List.Subperm.refl _, by decide⟩)
      obtain ⟨e', he'⟩ := hreturns (resting_sound _ _ _ _) zero_le_one
      obtain ⟨b, hb⟩ := removal_down hidx hlp hgp he₅ he'
      exact ⟨b, e', hb, hdesign e' he'⟩
  obtain ⟨b, e', hb, i, hi, -, -⟩ := hrun
  obtain ⟨t', w, ht', hw, hlen, he'⟩ := adjustBp_choice h.singles hfits ht hsingle hrow he₅ hmove hb
  refine ⟨t', w, ht', hw, ?_⟩
  -- the new entry is in the table of the choice predictor because the result is a design
  have hfits' := h.fits_of_embeddingToIdx (hlen.trans hfits.length_eq) hi
  obtain ⟨w', hw', hat'⟩ := forall₂_getElem? hfits' (show parameters[5]? = some _ from rfl)
  obtain rfl : w = w' := Option.some.inj (he'.symm.trans hw')
  exact hat'

/-! ### Two spaces -/

def oneRow : Table := ⟨["size"], ⟨[(1, [1])], by decide⟩⟩

def twoRows (a b : ℤ) : Table := ⟨["size"], ⟨[(1, [a]), (2, [b])], by simp⟩⟩

lemma single_twoRows {a b : ℤ} (h : a ≠ b) : Single (twoRows a b) 2 where
  description := rfl
  pos := by decide
  keys := rfl
  nodup := by simp [twoRows, Dict.values, h]
  length := by simp [twoRows, Dict.values]

/-- The tables of the global and the choice predictor have two rows, the others one. -/
def predictorTable (gp cp : ℤ) (name : String) : Table :=
  if name = "globalPredictorSize" then twoRows 2048 gp
  else if name = "choicePredictorSize" then twoRows 2048 cp
  else oneRow

def predictorSpace (gp cp : ℤ) : O3CPUDesignSpace where
  descriptions := ⟨[("o3cpu", ⟨parameters.map fun name =>
    (name, if name = "globalPredictorSize" ∨ name = "choicePredictorSize" then [1, 2] else [1]),
      by decide⟩)], by decide⟩
  componentsMappings := ⟨parameters.map fun name => (name, predictorTable gp cp name), by
    rw [List.map_map]
    exact (by decide : (parameters.map id).Nodup)⟩
  size := 4
  nonempty := List.cons_ne_nil _ _
  size_eq := by decide +kernel

lemma explorable_predictorSpace {gp cp : ℤ} (hgp : 2048 ≠ gp) (hcp : 2048 ≠ cp) :
    Explorable (predictorSpace gp cp) where
  one := rfl
  names := rfl
  size := rfl
  single := by
    intro p hp
    obtain ⟨name, hname, rfl⟩ := List.mem_map.mp hp
    have hget : (predictorSpace gp cp).componentsMappings.get? name =
        some (predictorTable gp cp name) :=
      Dict.mem_items_iff.mp (List.mem_map.mpr ⟨name, hname, rfl⟩)
    by_cases hg : name = "globalPredictorSize"
    · refine ⟨_, 2, hget, ?_, ?_⟩
      · rw [predictorTable, if_pos hg]
        exact single_twoRows hgp
      · simp [predictorTable, hg, twoRows, Dict.keys]
    · by_cases hc : name = "choicePredictorSize"
      · refine ⟨_, 2, hget, ?_, ?_⟩
        · rw [predictorTable, if_neg hg, if_pos hc]
          exact single_twoRows hcp
        · simp [predictorTable, hc, twoRows, Dict.keys]
      · refine ⟨_, 1, hget, ?_, ?_⟩
        · rw [predictorTable, if_neg hg, if_neg hc]
          exact ⟨rfl, le_rfl, rfl, by decide, by decide⟩
        · simp [predictorTable, hg, hc, oneRow, Dict.keys]

theorem stays_predictorSpace : Explorable (predictorSpace 4096 4096) ∧
    Stays (predictorSpace 4096 4096) := by
  have h : Explorable (predictorSpace 4096 4096) :=
    explorable_predictorSpace (by decide) (by decide)
  refine ⟨h, (stays_iff _ h).mpr fun up => ?_⟩
  -- the two tables are the same
  intro t m id ht hsingle hid hmove
  have hglobal : (predictorSpace 4096 4096).componentsMappings.get? "globalPredictorSize" =
      some (twoRows 2048 4096) := rfl
  obtain rfl : twoRows 2048 4096 = t := Option.some.inj ht
  obtain ⟨t', w, ht', hw, hat⟩ := next_self _ m id ht hsingle hid hmove
  obtain rfl : twoRows 2048 4096 = t' := Option.some.inj ht'
  exact ⟨_, w, hglobal, hw, hat⟩

/-- The choice predictor is set to a size that is not in its table. -/
theorem predictorSpace_leaves :
    Explorable (predictorSpace 4096 8192) ∧
    FromDesigns (predictorSpace 4096 8192) (resting false (1, 2048, 2048) (1, 1) (1, 1)) ∧
    ∃ e, (bottleneckRemoval (predictorSpace 4096 8192) 1 []
        (resting false (1, 2048, 2048) (1, 1) (1, 1)) 1 [(Bottleneck.bpMiss.name, 1)]).1 = .ok e ∧
      e[5]? = some 4096 ∧
      (predictorSpace 4096 8192).embeddingToIdx e = .error (.valueError "None is not in list") := by
  refine ⟨explorable_predictorSpace (by decide) (by decide), ⟨?_, ?_, ?_⟩, ?_⟩
  · intro c hc
    obtain rfl := List.mem_singleton.mp hc
    exact ⟨1, _, le_rfl, by decide, rfl, rfl, rfl, rfl⟩
  · intro c hc
    obtain rfl := List.mem_singleton.mp hc
    exact ⟨1, _, le_rfl, by decide, rfl, rfl, rfl⟩
  · intro c hc
    obtain rfl := List.mem_singleton.mp hc
    exact ⟨1, _, le_rfl, by decide, rfl, rfl, rfl⟩
  · refine ⟨[1, 1, 1, 1, 4096, 4096, 1, 1, 1, 1, 1, 1, 1, 1, 1, 1, 1, 1, 1, 1, 1, 1], ?_, rfl, ?_⟩
    · decide +kernel
    · decide +kernel

end ArchExplorer.Explorer
