import ArchExplorer.Design.Encoding
import ArchExplorer.Explorer.Search
import Mathlib.Algebra.BigOperators.Ring.List
import Mathlib.Algebra.Order.BigOperators.Group.List

/-!
# Contributions

The contribution of a bottleneck is the average of its share of the critical paths of the
benchmarks. The shares of a path add up to one, so that the contributions are a distribution.
-/

namespace ArchExplorer.Explorer

open ArchExplorer.Lib ArchExplorer.Lib.Text ArchExplorer.Design
open ArchExplorer.Core (bottleneck Bottleneck)

/-- The counter of a report. -/
def count (btnk : Dict String ℤ) (name : String) : ℤ := (btnk.get? name).getD 0

/-- The share of a bottleneck of the critical path of a benchmark. -/
def ratio (btnk : Dict String ℤ) (name : String) : ℚ := count btnk name / count btnk "length"

/-- The average share of a bottleneck. -/
def share (btnks : List (Dict String ℤ)) (name : String) : ℚ :=
  (btnks.map (ratio · name)).sum / btnks.length

/-- A report of all bottlenecks of a path that is not empty. -/
structure Complete (btnk : Dict String ℤ) : Prop where
  keys : btnk.keys.Perm ("length" :: bottleneck)
  pos : 0 < count btnk "length"

/-- A report whose delays make up the path. -/
structure Balanced (btnk : Dict String ℤ) : Prop extends Complete btnk where
  nonneg : ∀ name ∈ bottleneck, 0 ≤ count btnk name
  sum : (bottleneck.map (count btnk)).sum = count btnk "length"

/-! ### The accumulation -/

section Accumulation

variable {btnk : Dict String ℤ} {d : Dict String ℚ} {cs : List (String × ℤ)}

/-- The counters are added to those of the benchmarks before, each once. -/
lemma foldlM_addRatio (hlength : btnk.get? "length" = some (count btnk "length"))
    (hpos : count btnk "length" ≠ 0) (hnodup : (cs.map Prod.fst).Nodup)
    (hmem : ∀ c ∈ cs, c.1 ∈ d.keys) :
    ∃ d', cs.foldlM (addRatio btnk) d = .ok d' ∧ d'.keys = d.keys ∧ ∀ k v, d.get? k = some v →
      d'.get? k = some (v + (Dict.lookupItems k cs).getD 0 / count btnk "length") := by
  induction cs generalizing d with
  | nil => exact ⟨d, rfl, rfl, fun k v hk => by simpa [Dict.lookupItems] using hk⟩
  | cons c cs ih =>
    rw [List.map_cons, List.nodup_cons] at hnodup
    obtain ⟨hc, hmem⟩ := List.forall_mem_cons.mp hmem
    obtain ⟨total, htotal⟩ := Dict.mem_keys_iff.mp hc
    have hstep : addRatio btnk d c = .ok (d.set c.1 (total + c.2 / count btnk "length")) := by
      rw [addRatio, getItem_of_get? hlength, ok_bind, if_neg hpos, getItem_of_get? htotal]
      rfl
    have hkeys : (d.set c.1 (total + c.2 / count btnk "length")).keys = d.keys :=
      (Dict.keys_set ..).trans (if_pos hc)
    obtain ⟨d', hd', hkeys', hget⟩ := ih hnodup.2 fun c' hc' => hkeys ▸ hmem c' hc'
    refine ⟨d', by rw [List.foldlM_cons, hstep, ok_bind, hd'], hkeys'.trans hkeys, ?_⟩
    intro k v hk
    by_cases hck : c.1 = k
    · -- the key does not come again
      obtain rfl := hck
      obtain rfl : total = v := Option.some.inj (htotal.symm.trans hk)
      have hnone : Dict.lookupItems c.1 cs = none := by
        have hkeys : c.1 ∉ (⟨cs, hnodup.2⟩ : Dict String ℤ).keys := hnodup.1
        exact Dict.get?_eq_none_iff.mpr hkeys
      rw [hget c.1 _ (Dict.get?_set_self ..), hnone, Dict.lookupItems, if_pos rfl]
      simp
    · rw [Dict.lookupItems, if_neg hck]
      exact hget k v (by rw [Dict.get?_set_ne _ _ (Ne.symm hck), hk])

lemma lookupItems_filter {k : String} (hk : k ≠ "length") :
    Dict.lookupItems k (cs.filter fun c => c.1 ≠ "length") = Dict.lookupItems k cs := by
  induction cs with
  | nil => rfl
  | cons c cs ih =>
    by_cases hc : c.1 = "length"
    · have hck : c.1 ≠ k := fun h => hk (h.symm.trans hc)
      rw [List.filter_cons_of_neg (by simpa using hc), ih, Dict.lookupItems, if_neg hck]
    · rw [List.filter_cons_of_pos (by simpa using hc), Dict.lookupItems, Dict.lookupItems, ih]

/-- A benchmark adds its shares. -/
lemma addContribution_eq (h : Complete btnk) (hd : d.keys = bottleneck) :
    ∃ d', addContribution d btnk = .ok d' ∧ d'.keys = bottleneck ∧ ∀ k v, d.get? k = some v →
      d'.get? k = some (v + ratio btnk k) := by
  have hlength : btnk.get? "length" = some (count btnk "length") := by
    obtain ⟨v, hv⟩ := Dict.mem_keys_iff.mp (h.keys.mem_iff.mpr List.mem_cons_self)
    rw [count, hv, Option.getD_some]
  have hnodup : ((btnk.items.filter fun c => c.1 ≠ "length").map Prod.fst).Nodup :=
    btnk.nodup.sublist (List.filter_sublist.map Prod.fst)
  have hmem : ∀ c ∈ btnk.items.filter fun c => c.1 ≠ "length", c.1 ∈ d.keys := by
    intro c hc
    obtain ⟨hc, hne⟩ := List.mem_filter.mp hc
    have hkeys := h.keys.mem_iff.mp (List.mem_map_of_mem hc)
    rw [hd]
    exact (List.mem_cons.mp hkeys).resolve_left (by simpa using hne)
  obtain ⟨d', hd', hkeys, hget⟩ := foldlM_addRatio hlength h.pos.ne' hnodup hmem
  refine ⟨d', hd', hkeys.trans hd, fun k v hk => ?_⟩
  have hne : k ≠ "length" := by
    rintro rfl
    have hlen := Dict.mem_keys_of_get? hk
    rw [hd] at hlen
    exact absurd hlen (by decide)
  rw [hget k v hk, lookupItems_filter hne]
  rfl

lemma foldlM_addContribution {btnks : List (Dict String ℤ)} (h : ∀ btnk ∈ btnks, Complete btnk)
    (hd : d.keys = bottleneck) :
    ∃ d', btnks.foldlM addContribution d = .ok d' ∧ d'.keys = bottleneck ∧
      ∀ k v, d.get? k = some v → d'.get? k = some (v + (btnks.map (ratio · k)).sum) := by
  induction btnks generalizing d with
  | nil => exact ⟨d, rfl, hd, fun k v hk => by simpa using hk⟩
  | cons btnk btnks ih =>
    obtain ⟨hb, h⟩ := List.forall_mem_cons.mp h
    obtain ⟨d₁, hd₁, hkeys₁, hget₁⟩ := addContribution_eq hb hd
    obtain ⟨d', hd', hkeys, hget⟩ := ih h hkeys₁
    refine ⟨d', by rw [List.foldlM_cons, hd₁, ok_bind, hd'], hkeys, fun k v hk => ?_⟩
    rw [hget k _ (hget₁ k v hk), List.map_cons, List.sum_cons, add_assoc]

end Accumulation

/-- The bottlenecks begin with zero. -/
lemma zeros_bottleneck :
    (bottleneck.foldl (fun d btnk => d.set btnk 0) (.empty : Dict String ℚ)).keys = bottleneck ∧
      ∀ k ∈ bottleneck,
        (bottleneck.foldl (fun d btnk => d.set btnk 0) (.empty : Dict String ℚ)).get? k =
          some 0 := by
  decide +kernel

/-- The sums are divided in place. -/
lemma foldl_divide (d : Dict String ℚ) (n : ℕ) :
    (d.items.foldl (fun d c => d.set c.1 (c.2 / n)) d).keys = d.keys ∧
      ∀ k q, d.get? k = some q →
        (d.items.foldl (fun d c => d.set c.1 (c.2 / n)) d).get? k = some (q / n) := by
  let is : List (String × ℚ) := d.items.map fun c => (c.1, c.2 / n)
  have hfold : d.items.foldl (fun d c => d.set c.1 (c.2 / n)) d =
      is.foldl (fun d c => d.set c.1 c.2) d := by rw [List.foldl_map]
  have hfst : is.map Prod.fst = d.keys := by
    rw [List.map_map]
    rfl
  have hmem : ∀ i ∈ is, i.1 ∈ d.keys := fun i hi => hfst ▸ List.mem_map_of_mem hi
  obtain ⟨hkeys, hget⟩ := Dict.foldl_set_present (hfst ▸ d.nodup) hmem
  rw [hfold]
  exact ⟨hkeys, fun k q hq =>
    hget (k, q / n) (List.mem_map.mpr ⟨_, Dict.mem_items_iff.mpr hq, rfl⟩)⟩

/-- The contributions are the average shares, in the order of the registered bottlenecks. -/
lemma calcBottleneckContribution_eq {btnks : List (Dict String ℤ)} (hne : btnks ≠ [])
    (h : ∀ btnk ∈ btnks, Complete btnk) :
    ∃ contribution, calcBottleneckContribution btnks = .ok contribution ∧
      contribution.items = bottleneck.map fun name => (name, share btnks name) := by
  obtain ⟨d, hd, hkeys, hget⟩ := foldlM_addContribution h zeros_bottleneck.1
  have hlen : btnks.length ≠ 0 := fun hlen => hne (List.length_eq_zero_iff.mp hlen)
  refine ⟨_, by rw [calcBottleneckContribution, hd, ok_bind, if_neg hlen]; rfl, ?_⟩
  obtain ⟨hkeys', hget'⟩ := foldl_divide d btnks.length
  rw [Dict.items_eq_map (f := share btnks), hkeys', hkeys]
  intro k hk
  rw [hkeys', hkeys] at hk
  rw [hget' k _ (hget k 0 (zeros_bottleneck.2 k hk)), zero_add]
  rfl

/-! ### Reports that are accepted -/

/-- A report whose counters can be added up: only registered bottlenecks, of a path that is not
empty. -/
def Usable (btnk : Dict String ℤ) : Prop :=
  ∀ k ∈ btnk.keys, k ≠ "length" → k ∈ bottleneck ∧ count btnk "length" ≠ 0

section Accepted

variable {btnk : Dict String ℤ} {d d' : Dict String ℚ} {c : String × ℤ} {cs : List (String × ℤ)}
  {btnks : List (Dict String ℤ)} {contribution : Dict String ℚ}

lemma of_addRatio (h : addRatio btnk d c = .ok d') :
    d'.keys = d.keys ∧ c.1 ∈ d.keys ∧ count btnk "length" ≠ 0 := by
  obtain ⟨length, hlength, h⟩ := bind_eq_ok h
  split_ifs at h with hzero
  obtain ⟨total, htotal, h⟩ := bind_eq_ok h
  have hmem : c.1 ∈ d.keys := Dict.mem_keys_of_get? (get?_of_getItem htotal)
  rw [← Except.ok.inj h, count, get?_of_getItem hlength]
  exact ⟨(Dict.keys_set _ _ _).trans (if_pos hmem), hmem, hzero⟩

lemma of_foldlM_addRatio (h : cs.foldlM (addRatio btnk) d = .ok d') :
    d'.keys = d.keys ∧ ∀ c ∈ cs, c.1 ∈ d.keys ∧ count btnk "length" ≠ 0 := by
  induction cs generalizing d with
  | nil =>
    obtain rfl : d = d' := Except.ok.inj h
    exact ⟨rfl, nofun⟩
  | cons c cs ih =>
    rw [List.foldlM_cons] at h
    obtain ⟨d₁, hstep, h⟩ := bind_eq_ok h
    obtain ⟨hkeys, hmem⟩ := of_addRatio hstep
    obtain ⟨hkeys', hrest⟩ := ih h
    rw [hkeys] at hkeys' hrest
    exact ⟨hkeys', List.forall_mem_cons.mpr ⟨hmem, hrest⟩⟩

/-- A benchmark is added only if all of its bottlenecks have a counter. -/
lemma of_addContribution (h : addContribution d btnk = .ok d') (hd : d.keys = bottleneck) :
    d'.keys = bottleneck ∧ Usable btnk := by
  obtain ⟨hkeys, hmem⟩ := of_foldlM_addRatio h
  refine ⟨hkeys.trans hd, fun k hk hne => ?_⟩
  obtain ⟨c, hc, rfl⟩ := List.mem_map.mp hk
  exact hd ▸ hmem c (List.mem_filter.mpr ⟨hc, by simpa using hne⟩)

lemma of_foldlM_addContribution (h : btnks.foldlM addContribution d = .ok d')
    (hd : d.keys = bottleneck) : d'.keys = bottleneck ∧ ∀ btnk ∈ btnks, Usable btnk := by
  induction btnks generalizing d with
  | nil =>
    obtain rfl : d = d' := Except.ok.inj h
    exact ⟨hd, nofun⟩
  | cons btnk btnks ih =>
    rw [List.foldlM_cons] at h
    obtain ⟨d₁, hstep, h⟩ := bind_eq_ok h
    obtain ⟨hkeys, husable⟩ := of_addContribution hstep hd
    obtain ⟨hkeys', hrest⟩ := ih h hkeys
    exact ⟨hkeys', List.forall_mem_cons.mpr ⟨husable, hrest⟩⟩

lemma foldlM_addRatio_returns (h : ∀ c ∈ cs, c.1 ∈ d.keys ∧ count btnk "length" ≠ 0) :
    ∃ d', cs.foldlM (addRatio btnk) d = .ok d' ∧ d'.keys = d.keys := by
  induction cs generalizing d with
  | nil => exact ⟨d, rfl, rfl⟩
  | cons c cs ih =>
    obtain ⟨⟨hc, hpos⟩, h⟩ := List.forall_mem_cons.mp h
    obtain ⟨total, htotal⟩ := Dict.mem_keys_iff.mp hc
    obtain ⟨length, hlength, hpos⟩ : ∃ length, btnk.get? "length" = some length ∧ length ≠ 0 := by
      cases hget : btnk.get? "length" with
      | none => simp [count, hget] at hpos
      | some length => exact ⟨length, rfl, by simpa [count, hget] using hpos⟩
    have hstep : addRatio btnk d c = .ok (d.set c.1 (total + c.2 / length)) := by
      rw [addRatio, getItem_of_get? hlength, ok_bind, if_neg hpos, getItem_of_get? htotal]
      rfl
    have hkeys : (d.set c.1 (total + c.2 / length)).keys = d.keys :=
      (Dict.keys_set ..).trans (if_pos hc)
    obtain ⟨d', hd', hkeys'⟩ := ih fun c' hc' => hkeys ▸ h c' hc'
    exact ⟨d', by rw [List.foldlM_cons, hstep, ok_bind, hd'], hkeys'.trans hkeys⟩

lemma foldlM_addContribution_returns (h : ∀ btnk ∈ btnks, Usable btnk)
    (hd : d.keys = bottleneck) : ∃ d', btnks.foldlM addContribution d = .ok d' := by
  induction btnks generalizing d with
  | nil => exact ⟨d, rfl⟩
  | cons btnk btnks ih =>
    obtain ⟨hb, h⟩ := List.forall_mem_cons.mp h
    have hmem : ∀ c ∈ btnk.items.filter fun c => c.1 ≠ "length",
        c.1 ∈ d.keys ∧ count btnk "length" ≠ 0 := by
      intro c hc
      obtain ⟨hc, hne⟩ := List.mem_filter.mp hc
      exact hd ▸ hb c.1 (List.mem_map_of_mem hc) (by simpa using hne)
    obtain ⟨d₁, hd₁, hkeys⟩ := foldlM_addRatio_returns hmem
    obtain ⟨d', hd'⟩ := ih h (hkeys.trans hd)
    exact ⟨d', by rw [List.foldlM_cons, addContribution, hd₁, ok_bind, hd']⟩

/-- The contributions are computed exactly from reports with the registered names, of which there
has to be one. -/
lemma calcBottleneckContribution_returns_iff :
    (∃ contribution, calcBottleneckContribution btnks = .ok contribution) ↔
      btnks ≠ [] ∧ ∀ btnk ∈ btnks, Usable btnk := by
  constructor
  · rintro ⟨contribution, h⟩
    obtain ⟨d, hd, h⟩ := bind_eq_ok h
    refine ⟨?_, (of_foldlM_addContribution hd zeros_bottleneck.1).2⟩
    rintro rfl
    cases h
  · rintro ⟨hne, husable⟩
    obtain ⟨d, hd⟩ := foldlM_addContribution_returns husable zeros_bottleneck.1
    have hlen : btnks.length ≠ 0 := fun hlen => hne (List.length_eq_zero_iff.mp hlen)
    exact ⟨_, by rw [calcBottleneckContribution, hd, ok_bind, if_neg hlen]; rfl⟩

/-- All bottlenecks have a contribution. -/
lemma keys_of_calc (h : calcBottleneckContribution btnks = .ok contribution) :
    contribution.keys = bottleneck := by
  obtain ⟨d, hd, h⟩ := bind_eq_ok h
  obtain ⟨hkeys, -⟩ := of_foldlM_addContribution hd zeros_bottleneck.1
  split_ifs at h
  rw [← Except.ok.inj h]
  exact (foldl_divide d btnks.length).1.trans hkeys

end Accepted

/-! ### The distribution -/

lemma sum_ratio {btnk : Dict String ℤ} (h : Balanced btnk) :
    (bottleneck.map (ratio btnk)).sum = 1 := by
  have hpos : (count btnk "length" : ℚ) ≠ 0 := Int.cast_ne_zero.mpr h.pos.ne'
  calc (bottleneck.map (ratio btnk)).sum
      = ((bottleneck.map (count btnk)).sum : ℤ) / (count btnk "length" : ℚ) := by
        rw [Int.cast_list_sum, List.map_map, div_eq_mul_inv, ← List.sum_map_mul_right]
        rfl
    _ = 1 := by rw [h.sum, div_self hpos]

lemma sum_sum_ratio {btnks : List (Dict String ℤ)} (h : ∀ btnk ∈ btnks, Balanced btnk) :
    (bottleneck.map fun name => (btnks.map (ratio · name)).sum).sum = btnks.length := by
  induction btnks with
  | nil => simp
  | cons btnk btnks ih =>
    obtain ⟨hb, h⟩ := List.forall_mem_cons.mp h
    simp only [List.map_cons, List.sum_cons, List.sum_map_add, ih h, sum_ratio hb, List.length_cons]
    push_cast
    ring

lemma sum_share {btnks : List (Dict String ℤ)} (hne : btnks ≠ [])
    (h : ∀ btnk ∈ btnks, Balanced btnk) : (bottleneck.map (share btnks)).sum = 1 := by
  have hlen : (btnks.length : ℚ) ≠ 0 := by
    rw [Nat.cast_ne_zero]
    exact fun hlen => hne (List.length_eq_zero_iff.mp hlen)
  calc (bottleneck.map (share btnks)).sum
      = (bottleneck.map fun name => (btnks.map (ratio · name)).sum).sum / btnks.length := by
        rw [div_eq_mul_inv, ← List.sum_map_mul_right]
        rfl
    _ = 1 := by rw [sum_sum_ratio h, div_self hlen]

lemma share_nonneg {btnks : List (Dict String ℤ)} (h : ∀ btnk ∈ btnks, Balanced btnk)
    {name : String} (hname : name ∈ bottleneck) : 0 ≤ share btnks name := by
  refine div_nonneg (List.sum_nonneg fun q hq => ?_) (Nat.cast_nonneg _)
  obtain ⟨btnk, hb, rfl⟩ := List.mem_map.mp hq
  exact div_nonneg (Int.cast_nonneg ((h btnk hb).nonneg name hname))
    (Int.cast_nonneg (h btnk hb).pos.le)

lemma summary_perm (contribution : Dict String ℚ) :
    (summary contribution).Perm contribution.items := List.mergeSort_perm _ _

lemma summary_sorted (contribution : Dict String ℚ) :
    (summary contribution).Pairwise fun c c' => c'.2 ≤ c.2 := by
  have htrans (a b c : String × ℚ) (hab : decide (b.2 ≤ a.2) = true)
      (hbc : decide (c.2 ≤ b.2) = true) : decide (c.2 ≤ a.2) = true :=
    decide_eq_true ((of_decide_eq_true hbc).trans (of_decide_eq_true hab))
  have htotal (a b : String × ℚ) : (decide (b.2 ≤ a.2) || decide (a.2 ≤ b.2)) = true := by
    rw [Bool.or_eq_true, decide_eq_true_eq, decide_eq_true_eq]
    exact le_total b.2 a.2
  exact (List.pairwise_mergeSort htrans htotal contribution.items).imp fun h =>
    of_decide_eq_true h

/-- Contributions of all bottlenecks can be recorded. -/
lemma update_returns {contribution : Dict String ℚ} (h : contribution.keys = bottleneck)
    (scm : SensitiveComponentManager) : ∃ scm', scm.update contribution = .ok scm' := by
  have hget (b : Bottleneck) : ∃ q, getItem contribution b.name = .ok q := by
    obtain ⟨q, hq⟩ := Dict.mem_keys_iff.mp (h.symm ▸ b.name_mem)
    exact ⟨q, getItem_of_get? hq⟩
  obtain ⟨bp, hbp⟩ := hget .bpMiss
  obtain ⟨icache, hicache⟩ := hget .icacheMiss
  obtain ⟨dcache, hdcache⟩ := hget .dcacheMiss
  simp only [SensitiveComponentManager.update, hbp, hicache, hdcache,
    SensitiveComponent.unlessTerminated]
  split_ifs <;> exact ⟨_, rfl⟩

/-- The analysis of reports with all bottlenecks returns the sorted shares. -/
lemma getBottleneckContribution_eq {rpts : List (Option Text)} {btnks : List (Dict String ℤ)}
    (hread : rpts.reduceOption.mapM readReport = .ok btnks) (hne : btnks ≠ [])
    (h : ∀ btnk ∈ btnks, Complete btnk) :
    ∃ contribution, calcBottleneckContribution btnks = .ok contribution ∧
      contribution.items = bottleneck.map (fun name => (name, share btnks name)) ∧
      ∀ scm, ∃ scm', scm.update contribution = .ok scm' ∧
        getBottleneckContribution rpts scm = .ok (summary contribution, scm') := by
  obtain ⟨contribution, hcalc, hitems⟩ := calcBottleneckContribution_eq hne h
  refine ⟨contribution, hcalc, hitems, fun scm => ?_⟩
  obtain ⟨scm', hscm⟩ := update_returns (keys_of_calc hcalc) scm
  refine ⟨scm', hscm, ?_⟩
  rw [getBottleneckContribution, hread, ok_bind, hcalc, ok_bind, hscm]
  rfl

/-- The contributions are not negative and add up to one, and the analysis lists all of them from
the largest to the smallest. -/
theorem contribution_distribution (btnks : List (Dict String ℤ)) (hne : btnks ≠ [])
    (h : ∀ btnk ∈ btnks, Balanced btnk) :
    ∃ contribution, calcBottleneckContribution btnks = .ok contribution ∧
      contribution.keys = bottleneck ∧ (∀ q ∈ contribution.values, 0 ≤ q) ∧
      contribution.values.sum = 1 ∧
      ∀ rpts scm, rpts.reduceOption.mapM readReport = .ok btnks →
        ∃ l scm', getBottleneckContribution rpts scm = .ok (l, scm') ∧
          l.Perm contribution.items ∧ l.Pairwise fun c c' => c'.2 ≤ c.2 := by
  have hcomplete : ∀ btnk ∈ btnks, Complete btnk := fun btnk hb => (h btnk hb).toComplete
  obtain ⟨contribution, hcalc, hitems⟩ := calcBottleneckContribution_eq hne hcomplete
  have hvalues : contribution.values = bottleneck.map (share btnks) := by
    rw [Dict.values, hitems, List.map_map]
    rfl
  refine ⟨contribution, hcalc, ?_, ?_, ?_, fun rpts scm hread => ?_⟩
  · rw [Dict.keys, hitems, List.map_map]
    exact List.map_id _
  · rw [hvalues, List.forall_mem_map]
    exact fun name hname => share_nonneg h hname
  · rw [hvalues, sum_share hne h]
  · obtain ⟨contribution', hcalc', -, hget⟩ :=
      getBottleneckContribution_eq hread hne hcomplete
    obtain rfl : contribution = contribution' := Except.ok.inj (hcalc.symm.trans hcalc')
    obtain ⟨scm', -, hscm⟩ := hget scm
    exact ⟨_, scm', hscm, summary_perm _, summary_sorted _⟩

/-! ### Reports of given delays -/

section Delays

variable (delay : String → ℤ)

/-- The counters of a report. -/
def delays : Dict String ℤ :=
  ⟨bottleneck.map fun name => (name, delay name), by
    rw [List.map_map]
    exact (List.map_id bottleneck).symm ▸ (by decide : bottleneck.Nodup)⟩

/-- The length of the path. -/
def pathLength : ℤ := (bottleneck.map delay).sum

/-- The report of a path of which only the counters are listed. -/
def delayReport : Text :=
  (("critical path".toList ++ ':' :: ' ' :: ofInt (pathLength delay)) ::
    [[], "bottleneck:".toList] ++ (delays delay).items.map contributionLine).flatMap (· ++ ['\n'])

lemma keys_delays : (delays delay).keys = bottleneck := by
  rw [Dict.keys, delays, List.map_map]
  exact List.map_id _

lemma readReport_delayReport :
    readReport (delayReport delay) = .ok ((delays delay).set "length" (pathLength delay)) :=
  readReport_lines (by decide) (by decide) (keys_delays delay)

lemma count_delays {name : String} (h : name ∈ bottleneck) :
    count ((delays delay).set "length" (pathLength delay)) name = delay name := by
  have hne : name ≠ "length" := by
    rintro rfl
    exact absurd h (by decide)
  have hget : (delays delay).get? name = some (delay name) :=
    Dict.mem_items_iff.mp (List.mem_map.mpr ⟨name, h, rfl⟩)
  rw [count, Dict.get?_set_ne _ _ hne, hget, Option.getD_some]

lemma complete_delays (hpos : 0 < pathLength delay) :
    Complete ((delays delay).set "length" (pathLength delay)) where
  keys := by
    have hnotMem : "length" ∉ (delays delay).keys := by
      rw [keys_delays]
      decide
    rw [Dict.keys_set, if_neg hnotMem, keys_delays]
    exact List.perm_append_singleton _ _
  pos := by rwa [count, Dict.get?_set_self, Option.getD_some]

lemma balanced_delays (hnonneg : ∀ name ∈ bottleneck, 0 ≤ delay name)
    (hpos : 0 < pathLength delay) :
    Balanced ((delays delay).set "length" (pathLength delay)) where
  toComplete := complete_delays delay hpos
  nonneg name hname := by
    rw [count_delays delay hname]
    exact hnonneg name hname
  sum := by
    rw [List.map_congr_left fun name hname => count_delays delay hname, count, Dict.get?_set_self]
    rfl

end Delays

/-- A path that waits for nothing but the instruction cache. -/
def fetchDelays (base icache : ℤ) (name : String) : ℤ :=
  if name = Bottleneck.base.name then base
  else if name = Bottleneck.icacheMiss.name then icache
  else 0

/-- Two benchmarks with reports, the second of which waits half of the time, and one without. -/
theorem contribution_distribution_two :
    ∃ btnks : List (Dict String ℤ), btnks.length = 2 ∧
      [some (delayReport (fetchDelays 1 0)), none,
        some (delayReport (fetchDelays 1 1))].reduceOption.mapM readReport = .ok btnks ∧
      ∃ contribution, calcBottleneckContribution btnks = .ok contribution ∧
        contribution.values.sum = 1 := by
  have hread := readReport_delayReport (fetchDelays 1 0)
  have hread' := readReport_delayReport (fetchDelays 1 1)
  have hbalanced := balanced_delays (fetchDelays 1 0) (by decide) (by decide)
  have hbalanced' := balanced_delays (fetchDelays 1 1) (by decide) (by decide)
  refine ⟨[_, _], rfl, mapM_eq_ok (.cons hread (.cons hread' .nil)), ?_⟩
  obtain ⟨contribution, hcalc, -, -, hsum, -⟩ := contribution_distribution [_, _]
    (List.cons_ne_nil _ _)
    (List.forall_mem_cons.mpr ⟨hbalanced, List.forall_mem_singleton.mpr hbalanced'⟩)
  exact ⟨contribution, hcalc, hsum⟩

end ArchExplorer.Explorer
