import ArchExplorer.Explorer.Valid
import ArchExplorer.Lib.Frame

/-!
# What a removal does to each parameter

Each bottleneck governs its own entries of the embedding. The adjustments of different bottlenecks
do not see each other, so that each entry is moved as if its bottleneck were the only one.
-/

namespace ArchExplorer.Explorer

open ArchExplorer.Lib ArchExplorer.Design
open ArchExplorer.Core (Bottleneck bottleneck)

/-- The bottleneck whose adjustment touches a position. -/
def owner : ℕ → Option Bottleneck
  | 3 | 4 | 5 | 6 | 7 => some .bpMiss
  | 8                 => some .rob
  | 9                 => some .intRF
  | 10                => some .fpRF
  | 11                => some .iq
  | 12                => some .lq
  | 13                => some .sq
  | 14                => some .intAlu
  | 15                => some .intMultDiv
  | 16                => some .fpAlu
  | 17                => some .fpMultDiv
  | 18 | 19           => some .icacheMiss
  | 20 | 21           => some .dcacheMiss
  | _                 => none

/-- The positions that a bottleneck governs. -/
def governed (name : String) : List ℕ :=
  (List.range 22).filter fun p => (owner p).map Bottleneck.name = some name

lemma mem_governed_iff {name : String} {p : ℕ} :
    p ∈ governed name ↔ p < 22 ∧ (owner p).map Bottleneck.name = some name := by
  rw [governed, List.mem_filter, List.mem_range, decide_eq_true_eq]

lemma nodup_governed (name : String) : (governed name).Nodup := List.nodup_range.filter _

/-- No entry is governed by two bottlenecks. -/
lemma eq_of_mem_governed {name name' : String} {p : ℕ} (hp : p ∈ governed name)
    (hp' : p ∈ governed name') : name = name' :=
  Option.some.inj ((mem_governed_iff.mp hp).2.symm.trans (mem_governed_iff.mp hp').2)

section Local

variable {mappings : Dict String Table} {scm : SensitiveComponentManager} {up : Bool} {P : ℕ → Prop}
  {name target : String} {pos : ℕ}

lemma local_getAt (hpos : P pos) : Local P (getAt pos) := by
  refine ⟨fun _ => ⟨rfl, fun _ _ => rfl⟩, fun e e' h => ?_, fun _ _ h => h⟩
  change listItem e pos = listItem e' pos
  rw [listItem, listItem, h.entry pos hpos]

lemma run_setAt (e : List ℤ) (v : ℤ) :
    (setAt pos v).run e = (if pos < e.length then .ok () else
      .error (.indexError "list assignment index out of range"), e.set pos v) := by
  rw [setAt, Exec.run_bind_ok (Exec.run_get e)]
  split_ifs with h
  · rfl
  · rw [List.set_eq_of_length_le (not_lt.mp h)]
    rfl

lemma local_setAt (hpos : P pos) (v : ℤ) : Local P (setAt pos v) := by
  refine ⟨fun e => ?_, fun e e' h => ?_, fun e e' h => ?_⟩ <;> simp only [run_setAt]
  · refine ⟨List.length_set, fun p hp => List.getElem?_set_ne ?_⟩
    rintro rfl
    exact hp hpos
  · rw [h.length]
  · refine ⟨by rw [List.length_set, List.length_set, h.length], fun p hp => ?_⟩
    rw [List.getElem?_set, List.getElem?_set, h.length, h.entry p hp]

lemma local_adjustFrom (hpos : P pos) : Local P (adjustFrom mappings name target pos up) := by
  refine (local_getAt hpos).bind fun v => (Local.ofExcept _).bind fun t =>
    (Local.ofExcept _).bind fun idx => Local.ite ?_ (.pure _)
  exact (Local.ofExcept _).bind fun row => (Local.ofExcept _).bind fun w =>
    (local_setAt hpos w).bind fun _ => .pure _

/-- The parameter at a position. -/
def paramAt (pos : ℕ) : String := parameters.getD pos ""

/-- The table in which the parameter moves: the choice predictor moves in that of the global one. -/
def moveTable (pos : ℕ) : String := if pos = 5 then "globalPredictorSize" else paramAt pos

/-- Move the entry at a position. -/
def adjustAt (mappings : Dict String Table) (up : Bool) (pos : ℕ) : EmbeddingM Bool :=
  adjustFrom mappings (paramAt pos) (moveTable pos) pos up

/-- Move the entries at the given positions. -/
def adjustAll (mappings : Dict String Table) (up : Bool) : List ℕ → EmbeddingM Bool
  | []        => pure false
  | pos :: ps => do
    let a ← adjustAt mappings up pos
    let b ← adjustAll mappings up ps
    return a || b

lemma local_adjustAt (hpos : P pos) : Local P (adjustAt mappings up pos) := local_adjustFrom hpos

lemma local_adjustAll {ps : List ℕ} (h : ∀ p ∈ ps, P p) : Local P (adjustAll mappings up ps) := by
  induction ps with
  | nil => exact .pure _
  | cons p ps ih =>
    obtain ⟨hp, hps⟩ := List.forall_mem_cons.mp h
    exact (local_adjustAt hp).bind fun _ => (ih hps).bind fun _ => .pure _

/-- The adjustment that answers a bottleneck moves the entries that it governs. -/
lemma adjustNamed_eq (name : String) :
    adjustNamed mappings up name = adjustAll mappings up (governed name) := by
  have := Exec.lawfulMonad (ε := PyError) (σ := List ℤ)
  have hone (pos : ℕ) : adjustAll mappings up [pos] = adjustAt mappings up pos := by
    simp [adjustAll]
  have htwo (pos pos' : ℕ) : adjustAll mappings up [pos, pos'] = (do
      let a ← adjustAt mappings up pos
      let b ← adjustAt mappings up pos'
      return a || b) := by
    simp [adjustAll]
  have hbp : adjustAll mappings up [3, 4, 5, 6, 7] = adjustBp mappings up := by
    simp [adjustAll, adjustBp, adjustAt, adjustParam, paramAt, moveTable, parameters, Bool.or_assoc]
  by_cases h : ∃ b : Bottleneck, name = b.name
  · obtain ⟨b, rfl⟩ := h
    cases b with
    | bpMiss => exact hbp.symm
    | icacheMiss | dcacheMiss => exact (htwo _ _).symm
    | base | rdWrPort | raw | virtual => rfl
    | _ => exact (hone _).symm
  · have hnil : governed name = [] := by
      refine List.filter_eq_nil_iff.mpr fun p _ hp => h ?_
      obtain ⟨b, -, hb⟩ := Option.map_eq_some_iff.mp (of_decide_eq_true hp)
      exact ⟨b, hb.symm⟩
    rw [hnil, adjustNamed]
    repeat rw [if_neg fun heq => h ⟨_, heq⟩]
    rfl

lemma local_adjustNamed (name : String) :
    Local (· ∈ governed name) (adjustNamed mappings up name) := by
  rw [adjustNamed_eq]
  exact local_adjustAll fun p hp => hp

lemma local_increaseOne (name : String) :
    Local (· ∈ governed name) (increaseOne mappings scm name) := by
  have hpair {Config : Type} {r : Except PyError Config} {f : Config → EmbeddingM Unit}
      {P : ℕ → Prop} (hf : ∀ c, Local P (f c)) : Local P (do
        let c ← Exec.ofExcept r
        f c) := (Local.ofExcept r).bind hf
  unfold increaseOne
  split_ifs with hi hd hb
  · rw [hi.1]
    refine Local.bind (hpair fun c => ?_) fun _ => .pure _
    exact (local_setAt (by decide) _).bind fun _ => local_setAt (by decide) _
  · rw [hd.1]
    refine Local.bind (hpair fun c => ?_) fun _ => .pure _
    exact (local_setAt (by decide) _).bind fun _ => local_setAt (by decide) _
  · rw [hb.1]
    refine Local.bind (hpair fun c => ?_) fun _ => .pure _
    exact (local_setAt (by decide) _).bind fun _ => (local_setAt (by decide) _).bind fun _ =>
      local_setAt (by decide) _
  · exact local_adjustNamed name

lemma local_increaseLoop {topK : ℤ} (n : ℤ) (cs : List (String × ℚ)) :
    Local (fun p => ∃ name ∈ cs.map Prod.fst, p ∈ governed name)
      (increaseLoop mappings topK scm n cs) := by
  induction cs generalizing n with
  | nil => exact .pure _
  | cons c cs ih =>
    refine Local.ite (.pure _) (Local.bind ?_ fun adjust => ?_)
    · exact (local_increaseOne c.1).mono fun p hp => ⟨c.1, List.mem_cons_self, hp⟩
    · refine (ih _).mono ?_
      rintro p ⟨name, hname, hp⟩
      exact ⟨name, List.mem_cons_of_mem _ hname, hp⟩

end Local

/-! ### The pass upwards -/

/-- Does the step of the loop for a bottleneck count as an adjustment? -/
def adjusts (mappings : Dict String Table) (scm : SensitiveComponentManager) (e : List ℤ)
    (name : String) : Bool :=
  match ((increaseOne mappings scm name).run e).1 with
  | .ok b    => b
  | .error _ => false

/-- The bottlenecks that the loop reaches before it has made `topK` adjustments. -/
def reached (adj : String → Bool) (topK : ℤ) : ℤ → List String → List String
  | _, []            => []
  | n, name :: names =>
    if topK ≤ n then []
    else name :: reached adj topK (if adj name then n + 1 else n) names

lemma reached_sublist (adj : String → Bool) (topK n : ℤ) (names : List String) :
    (reached adj topK n names).Sublist names := by
  induction names generalizing n with
  | nil => exact .slnil
  | cons name names ih =>
    rw [reached]
    split_ifs
    · exact List.nil_sublist _
    all_goals exact (ih _).cons_cons name

section Pass

variable {mappings : Dict String Table} {scm : SensitiveComponentManager} {topK n : ℤ}
  {cs : List (String × ℚ)} {e e' : List ℤ}

/-- The bottlenecks that are reached are answered as if each were alone. -/
lemma increaseLoop_run (hnodup : (cs.map Prod.fst).Nodup)
    (hok : ∀ name ∈ reached (adjusts mappings scm e) topK n (cs.map Prod.fst),
      ∃ b, ((increaseOne mappings scm name).run e).1 = .ok b) :
    ∃ e', (increaseLoop mappings topK scm n cs).run e = (.ok (), e') ∧
      (∀ name ∈ reached (adjusts mappings scm e) topK n (cs.map Prod.fst),
        ∀ p ∈ governed name, e'[p]? = ((increaseOne mappings scm name).run e).2[p]?) ∧
      ∀ p, (∀ name ∈ reached (adjusts mappings scm e) topK n (cs.map Prod.fst),
        p ∉ governed name) → e'[p]? = e[p]? := by
  induction cs generalizing n with
  | nil => exact ⟨e, rfl, by simp [reached], fun _ _ => rfl⟩
  | cons c cs ih =>
    rw [List.map_cons, List.nodup_cons] at hnodup
    simp only [List.map_cons, reached, increaseLoop] at hok ⊢
    by_cases htop : topK ≤ n
    · simp only [if_pos htop]
      exact ⟨e, rfl, by simp, fun _ _ => rfl⟩
    · simp only [if_neg htop] at hok ⊢
      obtain ⟨⟨b, hb⟩, hok⟩ := List.forall_mem_cons.mp hok
      have hrun : (increaseOne mappings scm c.1).run e =
          (.ok b, ((increaseOne mappings scm c.1).run e).2) := Prod.ext hb rfl
      have hadj : adjusts mappings scm e c.1 = b := by rw [adjusts, hb]
      rw [hadj] at hok ⊢
      obtain ⟨e₂, hrun₂, hreached, hother⟩ := ih hnodup.2 hok
      have hapart : ∀ p, (∃ name ∈ cs.map Prod.fst, p ∈ governed name) → p ∉ governed c.1 := by
        rintro p ⟨name, hname, hp⟩ hp'
        exact hnodup.1 (eq_of_mem_governed hp' hp ▸ hname)
      let rest (adjust : Bool) : EmbeddingM Unit :=
        increaseLoop mappings topK scm (if adjust then n + 1 else n) cs
      obtain ⟨hres, hin, hout⟩ := (local_increaseOne c.1).run_bind_disjoint (f := rest)
        (local_increaseLoop _ _) hapart hrun
      rw [hrun₂] at hres hin
      refine ⟨((increaseOne mappings scm c.1 >>= rest).run e).2, Prod.ext hres rfl,
        List.forall_mem_cons.mpr ⟨fun p hp => ?_, fun name hname p hp => ?_⟩, fun p hp => ?_⟩
      · exact hout p fun hq => hapart p hq hp
      · exact (hin p ⟨name, (reached_sublist ..).subset hname, hp⟩).trans (hreached name hname p hp)
      · obtain ⟨hp, hps⟩ := List.forall_mem_cons.mp hp
        by_cases hq : ∃ name ∈ cs.map Prod.fst, p ∈ governed name
        · exact (hin p hq).trans (hother p hps)
        · exact (hout p hq).trans (((local_increaseOne c.1).frame e).entry p hp)

/-- The steps of a loop that returns would have returned alone. -/
lemma of_increaseLoop_run (hnodup : (cs.map Prod.fst).Nodup)
    (hrun : (increaseLoop mappings topK scm n cs).run e = (.ok (), e')) :
    ∀ name ∈ reached (adjusts mappings scm e) topK n (cs.map Prod.fst),
      ∃ b, ((increaseOne mappings scm name).run e).1 = .ok b := by
  induction cs generalizing n e' with
  | nil => simp [reached]
  | cons c cs ih =>
    rw [List.map_cons, List.nodup_cons] at hnodup
    simp only [List.map_cons, reached, increaseLoop] at hrun ⊢
    by_cases htop : topK ≤ n
    · simp [if_pos htop]
    · simp only [if_neg htop] at hrun ⊢
      obtain ⟨b, e₁, hb, hrest⟩ := Exec.run_bind_eq_ok hrun
      have hadj : adjusts mappings scm e c.1 = b := by rw [adjusts, hb]
      rw [hadj]
      -- the rest of the loop returns from `e` as it does from `e₁`
      have hlocal : Local (· ∈ governed c.1) (increaseOne mappings scm c.1) := local_increaseOne c.1
      have hframe := hlocal.frame e
      rw [hb] at hframe
      let rest : EmbeddingM Unit :=
        increaseLoop mappings topK scm (if b then n + 1 else n) cs
      have hrest' : Local (fun p => ∃ name ∈ cs.map Prod.fst, p ∈ governed name) rest :=
        local_increaseLoop _ _
      have hagree : AgreeOn (fun p => ∃ name ∈ cs.map Prod.fst, p ∈ governed name) e₁ e := by
        refine hframe.mono ?_
        rintro p ⟨name, hname, hp⟩ hp'
        exact hnodup.1 (eq_of_mem_governed hp' hp ▸ hname)
      have hres : (rest.run e).1 = .ok () := by
        rw [← hrest'.result e₁ e hagree, hrest]
      have hrun' : rest.run e = (.ok (), (rest.run e).2) := Prod.ext hres rfl
      exact List.forall_mem_cons.mpr ⟨⟨b, by rw [hb]⟩, ih hnodup.2 hrun'⟩

lemma length_increaseLoop {r : Except PyError Unit}
    (hrun : (increaseLoop mappings topK scm n cs).run e = (r, e')) : e'.length = e.length := by
  have hlocal : Local (fun p => ∃ name ∈ cs.map Prod.fst, p ∈ governed name)
      (increaseLoop mappings topK scm n cs) := local_increaseLoop n cs
  have hlen := hlocal.length_run e
  rwa [hrun] at hlen

lemma length_increase [Averaging] {r : Except PyError Unit}
    (hrun : (increaseHardwareResource mappings topK scm cs).run e = (r, e')) :
    e'.length = e.length := length_increaseLoop hrun

lemma length_decrease {r : Except PyError Unit} {sample : List String}
    (hrun : (decreaseHardwareResourceV2 mappings topK cs sample).run e = (r, e')) :
    e'.length = e.length := by
  have hlocal : Local (fun _ => True) (decreaseHardwareResourceV2 mappings topK cs sample) := by
    refine Local.ite (.throw _) (Local.forM_list fun name _ => ?_)
    exact ((local_adjustNamed name).mono fun _ _ => trivial).bind fun _ => .pure _
  have hlen := hlocal.length_run e
  rwa [hrun] at hlen

end Pass

/-! ### The entries of one bottleneck -/

/-- Does the move of an entry change it? -/
def moves (mappings : Dict String Table) (up : Bool) (e : List ℤ) (p : ℕ) : Bool :=
  match ((adjustAt mappings up p).run e).1 with
  | .ok b    => b
  | .error _ => false

section All

variable {mappings : Dict String Table} {up : Bool} {ps : List ℕ} {e e' : List ℤ} {b : Bool}

/-- The entries are moved as if each were alone. -/
lemma adjustAll_run (hnodup : ps.Nodup)
    (hok : ∀ p ∈ ps, ∃ b, ((adjustAt mappings up p).run e).1 = .ok b) :
    ∃ e', (adjustAll mappings up ps).run e = (.ok (ps.any (moves mappings up e)), e') ∧
      ∀ p ∈ ps, e'[p]? = ((adjustAt mappings up p).run e).2[p]? := by
  induction ps with
  | nil => exact ⟨e, rfl, nofun⟩
  | cons p ps ih =>
    rw [List.nodup_cons] at hnodup
    obtain ⟨⟨b, hb⟩, hok⟩ := List.forall_mem_cons.mp hok
    obtain ⟨e₂, hrun₂, hps⟩ := ih hnodup.2 hok
    have hrun : (adjustAt mappings up p).run e = (.ok b, ((adjustAt mappings up p).run e).2) :=
      Prod.ext hb rfl
    have hmoves : moves mappings up e p = b := by rw [moves, hb]
    let rest (a : Bool) : EmbeddingM Bool := do
      let b ← adjustAll mappings up ps
      return a || b
    have hrest : (rest b).run e = (.ok (b || ps.any (moves mappings up e)), e₂) :=
      Exec.run_bind_ok hrun₂ _
    have hlocal : Local (· ∈ ps) (rest b) := (local_adjustAll fun p hp => hp).bind fun _ => .pure _
    have hone : Local (· = p) (adjustAt mappings up p) := local_adjustAt rfl
    obtain ⟨hres, hin, hout⟩ := hone.run_bind_disjoint (f := rest) hlocal
      (fun q hq hqp => hnodup.1 (hqp ▸ hq)) hrun
    rw [hrest] at hres hin
    refine ⟨((adjustAt mappings up p >>= rest).run e).2, Prod.ext ?_ rfl, ?_⟩
    · rw [List.any_cons, hmoves]
      exact hres
    · exact List.forall_mem_cons.mpr
        ⟨hout p hnodup.1, fun q hq => (hin q hq).trans (hps q hq)⟩

lemma of_adjustAll_run (hnodup : ps.Nodup) (hrun : (adjustAll mappings up ps).run e = (.ok b, e')) :
    ∀ p ∈ ps, ∃ b, ((adjustAt mappings up p).run e).1 = .ok b := by
  induction ps generalizing e e' b with
  | nil => simp
  | cons p ps ih =>
    rw [List.nodup_cons] at hnodup
    obtain ⟨b₁, e₁, hp, hrest⟩ := Exec.run_bind_eq_ok hrun
    obtain ⟨b₂, e₂, hps, -⟩ := Exec.run_bind_eq_ok hrest
    refine List.forall_mem_cons.mpr ⟨⟨b₁, by rw [hp]⟩, fun q hq => ?_⟩
    have hone : Local (· = p) (adjustAt mappings up p) := local_adjustAt rfl
    have hother : Local (· = q) (adjustAt mappings up q) := local_adjustAt rfl
    have hframe := hone.frame e
    rw [hp] at hframe
    rw [← hother.result e₁ e (hframe.mono ?_)]
    · exact ih hnodup.2 hps q hq
    · rintro r rfl rfl
      exact hnodup.1 hq

end All

/-! ### Rows -/

/-- The value is in the row `r` of the table of the parameter at `p`. -/
def RowAt (mappings : Dict String Table) (p : ℕ) (r v : ℤ) : Prop :=
  ∃ t, mappings.get? (paramAt p) = some t ∧ t.rows.get? r = some [v]

/-- A move takes the parameter at `p` from the row `r` to the row `r'`. -/
def Goes (mappings : Dict String Table) (up : Bool) (p : ℕ) (r r' : ℤ) : Prop :=
  ∃ t, mappings.get? (paramAt p) = some t ∧
    if movable up t.rows.items.length r then
      ∃ t' w, mappings.get? (moveTable p) = some t' ∧
        t'.rows.get? (neighbour up r) = some [w] ∧ t.rows.get? r' = some [w]
    else r' = r

section Rows

variable {mappings : Dict String Table} {up : Bool} {p : ℕ} {e e' : List ℤ} {r r' v v' : ℤ}
  {b : Bool}

lemma paramAt_mem (hp : p < 22) : paramAt p ∈ parameters := by
  have hlt : p < parameters.length := hp
  rw [paramAt, List.getD_eq_getElem?_getD, List.getElem?_eq_getElem hlt, Option.getD_some]
  exact List.getElem_mem hlt

lemma moveTable_mem (hp : p < 22) : moveTable p ∈ parameters := by
  unfold moveTable
  split_ifs
  · decide
  · exact paramAt_mem hp

/-- A row is determined by its value. -/
lemma RowAt.unique (hsingles : Singles mappings) (hp : p < 22) (h : RowAt mappings p r v)
    (h' : RowAt mappings p r' v) : r = r' := by
  obtain ⟨t, m, ht, hsingle⟩ := hsingles _ (paramAt_mem hp)
  obtain ⟨t₁, ht₁, hr⟩ := h
  obtain ⟨t₂, ht₂, hr'⟩ := h'
  obtain rfl : t = t₁ := Option.some.inj (ht.symm.trans ht₁)
  obtain rfl : t = t₂ := Option.some.inj (ht.symm.trans ht₂)
  exact Except.ok.inj ((hsingle.findRow_eq hr).symm.trans (hsingle.findRow_eq hr'))

/-- What a move does, in terms of the tables. -/
lemma run_adjustAt (up : Bool) (hsingles : Singles mappings) (hp : p < 22) (he : e[p]? = some v)
    (hrow : RowAt mappings p r v) :
    ∃ t, mappings.get? (paramAt p) = some t ∧
      (adjustAt mappings up p).run e = if movable up t.rows.items.length r then
        match getMappingParams mappings (moveTable p) (neighbour up r) >>= (listItem · 0) with
        | .ok w      => (.ok true, e.set p w)
        | .error err => (.error err, e)
      else (.ok false, e) := by
  obtain ⟨t, m, ht, hsingle⟩ := hsingles _ (paramAt_mem hp)
  obtain ⟨t', ht', hr⟩ := hrow
  obtain rfl : t = t' := Option.some.inj (ht.symm.trans ht')
  refine ⟨t, ht, ?_⟩
  rw [hsingle.length_items]
  exact run_adjustFrom he ht hsingle hr

lemma of_getMappingParams {name : String} {id : ℤ} {row : List ℤ}
    (h : getMappingParams mappings name id = .ok row) :
    ∃ t, mappings.get? name = some t ∧ t.rows.get? id = some row := by
  obtain ⟨t, ht, h⟩ := bind_eq_ok h
  refine ⟨t, get?_of_getItem ht, ?_⟩
  split at h
  · rw [← Except.ok.inj h]
    assumption
  · cases h

lemma adjustAt_of_goes (hsingles : Singles mappings) (hp : p < 22) (he : e[p]? = some v)
    (hrow : RowAt mappings p r v) (hgoes : Goes mappings up p r r') :
    ∃ b v', (adjustAt mappings up p).run e = (.ok b, e.set p v') ∧ RowAt mappings p r' v' := by
  obtain ⟨t, ht, hrun⟩ := run_adjustAt up hsingles hp he hrow
  obtain ⟨t₁, ht₁, hgoes⟩ := hgoes
  obtain rfl : t = t₁ := Option.some.inj (ht.symm.trans ht₁)
  rw [hrun]
  split_ifs at hgoes ⊢ with hmove
  · obtain ⟨t', w, ht', hw, hr'⟩ := hgoes
    have hparams : getMappingParams mappings (moveTable p) (neighbour up r) = .ok [w] := by
      simp only [getMappingParams, getItem_of_get? ht', ok_bind, hw]
      rfl
    rw [hparams]
    exact ⟨true, w, rfl, t, ht, hr'⟩
  · obtain ⟨hlt, rfl⟩ := List.getElem?_eq_some_iff.mp he
    obtain rfl := hgoes
    exact ⟨false, e[p], by rw [List.set_getElem_self], hrow⟩

lemma goes_of_adjustAt (hsingles : Singles mappings) (hp : p < 22) (he : e[p]? = some v)
    (hrow : RowAt mappings p r v) (hrun : (adjustAt mappings up p).run e = (.ok b, e'))
    (he' : e'[p]? = some v') (hrow' : RowAt mappings p r' v') : Goes mappings up p r r' := by
  obtain ⟨t, ht, hrun'⟩ := run_adjustAt up hsingles hp he hrow
  refine ⟨t, ht, ?_⟩
  rw [hrun'] at hrun
  split_ifs at hrun ⊢ with hmove
  · cases hparams : getMappingParams mappings (moveTable p) (neighbour up r) with
    | error err =>
      rw [hparams] at hrun
      cases hrun
    | ok row =>
      rw [hparams, ok_bind] at hrun
      obtain ⟨t', ht', hget⟩ := of_getMappingParams hparams
      cases hw : listItem row 0 with
      | error err =>
        rw [hw] at hrun
        cases hrun
      | ok w =>
        rw [hw] at hrun
        obtain rfl : e.set p w = e' := (Prod.mk.inj hrun).2
        rw [List.getElem?_set_self (List.getElem?_eq_some_iff.mp he).1] at he'
        obtain rfl : w = v' := Option.some.inj he'
        -- the row of the other table has one entry
        obtain ⟨t₁, m, ht₁, hsingle⟩ := hsingles _ (moveTable_mem hp)
        obtain rfl : t' = t₁ := Option.some.inj (ht'.symm.trans ht₁)
        obtain ⟨w', rfl⟩ := hsingle.exists_value hget
        obtain rfl : w' = w := Except.ok.inj hw
        obtain ⟨t₂, ht₂, hr'⟩ := hrow'
        obtain rfl : t = t₂ := Option.some.inj (ht.symm.trans ht₂)
        exact ⟨t', w', ht', hget, hr'⟩
  · obtain rfl : e = e' := (Prod.mk.inj hrun).2
    obtain rfl : v = v' := Option.some.inj (he.symm.trans he')
    exact hrow'.unique hsingles hp hrow

/-- A value that is not in the table is not moved. -/
lemma adjustAt_stuck (hsingles : Singles mappings) (hp : p < 22) (he : e[p]? = some v)
    (hrow : ∀ r, ¬ RowAt mappings p r v) : (adjustAt mappings up p).run e = (.ok false, e) := by
  obtain ⟨t, m, ht, hsingle⟩ := hsingles _ (paramAt_mem hp)
  have hidx : getIdx mappings (paramAt p) v = .ok (-1) := by
    obtain ⟨d, hd⟩ := List.length_eq_one_iff.mp hsingle.description
    rw [getIdx, getItem_of_get? ht, ok_bind, hd]
    exact hsingle.findRow_none fun r hr => hrow r ⟨t, ht, hr⟩
  have hget : (getAt p).run e = (.ok v, e) := by
    change (listItem e p, e) = _
    rw [listItem, he]
  rw [adjustAt, adjustFrom, Exec.run_bind_ok hget, getItem_of_get? ht,
    Exec.run_bind_ok (Exec.run_ofExcept _ e), hidx, Exec.run_bind_ok (Exec.run_ofExcept _ e)]
  rfl

end Rows

/-! ### Spaces with given tables -/

/-- A table of one parameter with the given values. -/
def tableOf (values : List ℤ) : Table where
  description := ["size"]
  rows := ⟨(List.range values.length).map fun i : ℕ => ((i : ℤ) + 1, [values.getD i 0]), by
    rw [List.map_map]
    exact List.nodup_range.map fun i j hij => by simpa using hij⟩

lemma single_tableOf {values : List ℤ} (hne : values ≠ []) (hnodup : values.Nodup) :
    Single (tableOf values) values.length where
  description := rfl
  pos := List.length_pos_iff.mpr hne
  keys := by
    rw [Dict.keys, tableOf, List.map_map]
    rfl
  nodup := by
    rw [Dict.values, tableOf, List.map_map]
    refine List.Nodup.map_on (fun i hi j hj hij => ?_) List.nodup_range
    rw [List.mem_range] at hi hj
    have hval : values[i] = values[j] := by simpa [hi, hj] using hij
    exact (hnodup.getElem_inj_iff).mp hval
  length := by
    intro row hrow
    obtain ⟨p, hp, rfl⟩ := List.mem_map.mp hrow
    obtain ⟨i, -, rfl⟩ := List.mem_map.mp hp
    rfl

/-- The space of all rows of the tables with the given values. -/
def spaceOf (rows : String → List ℤ) : O3CPUDesignSpace where
  descriptions := ⟨[("o3cpu", ⟨parameters.map fun name =>
    (name, (List.range (rows name).length).map fun i : ℕ => (i : ℤ) + 1), by
      rw [List.map_map]
      exact (by decide : (parameters.map id).Nodup)⟩)], by simp⟩
  componentsMappings := ⟨parameters.map fun name => (name, tableOf (rows name)), by
    rw [List.map_map]
    exact (by decide : (parameters.map id).Nodup)⟩
  size := npProd (parameters.map fun name => (rows name).length)
  nonempty := List.cons_ne_nil _ _
  size_eq := by
    have hdims (l : List String) : ((l.map fun name =>
        (name, (List.range (rows name).length).map fun i : ℕ => (i : ℤ) + 1)).map Prod.snd).map
          List.length = l.map fun name => (rows name).length := by
      simp [Function.comp_def]
    rw [constructDesignSize, constructComponentDims, Dict.values, List.map_singleton,
      List.map_singleton, List.map_singleton, Dict.values, hdims]
    exact O3CPUDesignSpace.Counted.npSum_singleton _

lemma explorable_spaceOf {rows : String → List ℤ} (hne : ∀ name ∈ parameters, rows name ≠ [])
    (hnodup : ∀ name ∈ parameters, (rows name).Nodup)
    (hsmall : (parameters.map fun name => (rows name).length).prod < 2 ^ 63) :
    Explorable (spaceOf rows) where
  one := rfl
  names := by
    rw [O3CPUDesignSpace.components, Dict.keys]
    exact (List.map_map ..).trans (List.map_id _)
  size := by
    have hdims : dimsOf (spaceOf rows).design.items =
        parameters.map fun name => (rows name).length := by
      simp [spaceOf, dimsOf, O3CPUDesignSpace.design, Function.comp_def]
    rw [hdims, ← O3CPUDesignSpace.Counted.npProd_eq hsmall]
    simp only [spaceOf]
  single := by
    intro p hp
    obtain ⟨name, hname, rfl⟩ := List.mem_map.mp hp
    have hget : (spaceOf rows).componentsMappings.get? name = some (tableOf (rows name)) :=
      Dict.mem_items_iff.mp (List.mem_map.mpr ⟨name, hname, rfl⟩)
    have hsingle := single_tableOf (hne name hname) (hnodup name hname)
    refine ⟨_, _, hget, hsingle, fun id => ?_⟩
    rw [hsingle.keys]

end ArchExplorer.Explorer
