import ArchExplorer.Design.Encoding

/-!
# Spaces of several designs

`idx_to_vec` finds the design that an index belongs to and picks the candidates of that design.
`vec_to_idx` looks every vector up in the first design.
-/

namespace ArchExplorer.Design

open ArchExplorer.Lib MixedRadix

/-- One candidate of the design for each of the given components. -/
def Belongs (design : Dict String (List ℤ)) (components : List String) (vec : List ℤ) : Prop :=
  List.Forall₂ (fun c id => ∃ candidates, design.get? c = some candidates ∧ id ∈ candidates)
    components vec

section Candidates

variable {design : Dict String (List ℤ)} {l : List (String × List ℤ)} {names : List String}
  {ds : List ℕ} {ids : List ℤ}

lemma length_of_splitIdx {dims : List ℕ} {n : ℤ} (h : splitIdx dims n = .ok ds) :
    ds.length = dims.length := by
  induction dims generalizing n ds with
  | nil =>
    obtain rfl : [] = ds := Except.ok.inj h
    rfl
  | cons dim dims ih =>
    rw [splitIdx] at h
    split at h
    · cases h
    · obtain ⟨ds', hds', h⟩ := bind_eq_ok h
      obtain rfl := Except.ok.inj h
      rw [List.length_cons, List.length_cons, ih hds']

/-- What is picked from a design belongs to it. -/
lemma belongs_of_pickCandidates (hlen : ds.length = names.length)
    (h : pickCandidates design names ds = .ok ids) : Belongs design names ids := by
  induction names generalizing ds ids with
  | nil =>
    obtain rfl := List.length_eq_zero_iff.mp hlen
    obtain rfl : [] = ids := Except.ok.inj h
    exact .nil
  | cons c names ih =>
    obtain ⟨d, ds, rfl⟩ := List.exists_cons_of_length_eq_add_one hlen
    rw [pickCandidates] at h
    obtain ⟨candidates, hc, h⟩ := bind_eq_ok h
    obtain ⟨id, hid, h⟩ := bind_eq_ok h
    obtain ⟨ids', hids, h⟩ := bind_eq_ok h
    obtain rfl := Except.ok.inj h
    exact .cons
      ⟨candidates, get?_of_getItem hc, List.mem_of_getElem? (getElem?_of_listItem hid)⟩
      (ih (Nat.succ.inj hlen) hids)

/-- What is found in a design belongs to it. -/
lemma belongs_of_indexCandidates (hlen : ids.length = names.length)
    (h : indexCandidates design names (ids.map fun id => some (.row id)) = .ok ds) :
    Belongs design names ids := by
  induction names generalizing ds ids with
  | nil =>
    obtain rfl := List.length_eq_zero_iff.mp hlen
    exact .nil
  | cons c names ih =>
    obtain ⟨id, ids, rfl⟩ := List.exists_cons_of_length_eq_add_one hlen
    rw [List.map_cons, indexCandidates] at h
    obtain ⟨candidates, hc, h⟩ := bind_eq_ok h
    obtain ⟨d, hd, h⟩ := bind_eq_ok h
    obtain ⟨ds', hds, -⟩ := bind_eq_ok h
    refine .cons ⟨candidates, get?_of_getItem hc, ?_⟩ (ih (Nat.succ.inj hlen) hds)
    rw [indexOf] at hd
    split at hd
    · rename_i hfind
      obtain ⟨hlt, heq, -⟩ := List.findIdx?_eq_some_iff_getElem.mp hfind
      exact of_decide_eq_true heq ▸ List.getElem_mem hlt
    · cases hd

/-- Candidates picked from lists without duplicates are found again. -/
lemma exists_pickCandidates (hget : ∀ p ∈ l, design.get? p.1 = some p.2)
    (hnodup : ∀ p ∈ l, p.2.Nodup) (hds : List.Forall₂ (· < ·) ds (dimsOf l)) :
    ∃ ids, pickCandidates design (l.map Prod.fst) ds = .ok ids ∧
      indexCandidates design (l.map Prod.fst) (ids.map fun id => some (.row id)) = .ok ds := by
  induction l generalizing ds with
  | nil =>
    cases hds
    exact ⟨[], rfl, rfl⟩
  | cons p l ih =>
    obtain ⟨hp, hget⟩ := List.forall_mem_cons.mp hget
    obtain ⟨hpn, hnodup⟩ := List.forall_mem_cons.mp hnodup
    cases hds with
    | @cons d _ ds _ hd hds =>
      obtain ⟨ids, hpick, hindex⟩ := ih hget hnodup hds
      have hid : p.2[d]? = some p.2[d] := List.getElem?_eq_getElem hd
      refine ⟨p.2[d] :: ids, ?_, ?_⟩
      · simp only [List.map_cons, pickCandidates, getItem_of_get? hp, ok_bind, listItem, hid,
          hpick]
        rfl
      · simp only [List.map_cons, indexCandidates, getItem_of_get? hp, ok_bind,
          indexOf_row hpn hid, hindex]
        rfl

end Candidates

namespace O3CPUDesignSpace

/-- A space of any number of designs over the same components. The candidates of a component are
distinct, and no vector belongs to two designs. -/
structure Separated (s : O3CPUDesignSpace) : Prop where
  components : ∀ design ∈ s.descriptions.values, design.keys.Perm s.components
  nonempty : ∀ design ∈ s.descriptions.values, ∀ p ∈ design.items, p.2 ≠ []
  nodup : ∀ design ∈ s.descriptions.values, ∀ p ∈ design.items, p.2.Nodup
  disjoint : s.descriptions.values.Pairwise fun design design' =>
    ∀ vec, Belongs design s.components vec → ¬ Belongs design' s.components vec

variable {s : O3CPUDesignSpace} {i : ℤ}

/-- The size of the first design. -/
def firstSize (s : O3CPUDesignSpace) : ℤ := npProd (dimsOf s.design.items)

lemma exists_items (s : O3CPUDesignSpace) :
    ∃ name rest, s.descriptions.items = (name, s.design) :: rest := by
  obtain ⟨p, rest, hp⟩ := List.exists_cons_of_ne_nil s.nonempty
  refine ⟨p.1, rest, ?_⟩
  simp [design, hp]

lemma design_mem_values (s : O3CPUDesignSpace) : s.design ∈ s.descriptions.values :=
  List.mem_map.mpr ⟨_, List.head_mem s.nonempty, rfl⟩

lemma exists_accDesignSize (s : O3CPUDesignSpace) :
    ∃ rest, s.accDesignSize = s.firstSize :: rest := by
  obtain ⟨name, rest, hitems⟩ := s.exists_items
  have hsize : constructDesignSize s.descriptions = s.firstSize ::
      (rest.map fun p => npProd (p.2.values.map List.length)) := by
    simp [constructDesignSize, constructComponentDims, Dict.values, hitems, firstSize, dimsOf,
      Function.comp_def]
  have hmod : Int.bmod (0 + s.firstSize) (2 ^ 64) = s.firstSize := by
    rw [zero_add]
    exact Counted.bmod_npProd _
  rw [accDesignSize, hsize, npCumsum, hmod]
  exact ⟨_, rfl⟩

lemma listItem_componentDims (s : O3CPUDesignSpace) :
    listItem s.componentDims 0 = .ok (dimsOf s.design.items) := by
  obtain ⟨name, rest, hitems⟩ := s.exists_items
  simp [listItem, componentDims, constructComponentDims, Dict.values, hitems, dimsOf]

lemma exists_getItem_design (s : O3CPUDesignSpace) :
    ∃ name, listItem s.designs 0 = .ok name ∧ getItem s.descriptions name = .ok s.design := by
  obtain ⟨name, rest, hitems⟩ := s.exists_items
  refine ⟨name, by simp [listItem, designs, Dict.keys, hitems], getItem_of_get? ?_⟩
  exact Dict.mem_items_iff.mp (by simp [hitems])

/-- The places of the digits other than zero do not wrap around, whatever the radices. -/
lemma sum_npProd_digits {dims : List ℕ} {n : ℕ} (hn : n < 2 ^ 63) (hlt : n < dims.prod) :
    ((digits dims n).zipIdx.map fun p => npProd (dims.take p.2) * p.1).sum = (n : ℤ) := by
  have hplace : ∀ p ∈ (digits dims n).zipIdx,
      npProd (dims.take p.2) * p.1 = (((dims.take p.2).prod * p.1 : ℕ) : ℤ) := by
    rintro ⟨d, j⟩ hp
    rcases Nat.eq_zero_or_pos d with rfl | hd
    · simp
    · have hle := prod_take_le (List.mem_zipIdx_iff_getElem?.mp hp) hd.ne'
      rw [Counted.npProd_eq (hle.trans_lt hn), Nat.cast_mul]
  have hlen : (digits dims n).length ≤ dims.length := by
    clear hn hlt hplace
    induction dims generalizing n with
    | nil => exact le_rfl
    | cons r dims ih => exact Nat.succ_le_succ ih
  calc ((digits dims n).zipIdx.map fun p => npProd (dims.take p.2) * p.1).sum
      = (((digits dims n).zipIdx.map fun p => (dims.take p.2).prod * p.1).sum : ℕ) := by
        rw [Nat.cast_list_sum, List.map_map]
        exact congrArg List.sum (List.map_congr_left hplace)
    _ = (n : ℤ) := by rw [sum_eq_value hlen, value_digits hlt]

lemma npProd_le (l : List ℕ) : npProd l ≤ l.prod := by
  by_contra hlt
  have hbound := Counted.npProd_lt l
  have hsmall : l.prod < 2 ^ 63 := by omega
  exact hlt (Counted.npProd_eq hsmall).le

/-- The design of an index beyond the first one. -/
lemma exists_of_idxToVec {ids : List ℤ} (hlt : s.firstSize < i) (hids : s.idxToVec i = .ok ids) :
    ∃ d design ds, s.descriptions.values[d + 1]? = some design ∧
      ds.length = design.keys.length ∧ pickCandidates design s.components ds = .ok ids := by
  rw [idxToVec] at hids
  obtain ⟨-, -, hids⟩ := bind_eq_ok hids
  dsimp only at hids
  split at hids
  · cases hids
  · rename_i k hfind
    obtain ⟨offset, -, hids⟩ := bind_eq_ok hids
    obtain ⟨dims, hdims, hids⟩ := bind_eq_ok hids
    obtain ⟨ds, hds, hids⟩ := bind_eq_ok hids
    obtain ⟨name, hname, hids⟩ := bind_eq_ok hids
    obtain ⟨design, hdesign, hids⟩ := bind_eq_ok hids
    -- the accumulated size of the first design does not exceed the index
    obtain ⟨d, rfl⟩ : ∃ d, k = d + 1 := by
      refine Nat.exists_eq_succ_of_ne_zero fun hk => ?_
      obtain ⟨rest, hacc⟩ := s.exists_accDesignSize
      obtain ⟨_, hacc', -⟩ := List.findIdx?_eq_some_iff_getElem.mp hfind
      simp only [hk, hacc, List.getElem_cons_zero, decide_eq_true_eq] at hacc'
      omega
    have hname := getElem?_of_listItem hname
    rw [designs, Dict.keys, List.getElem?_map, Option.map_eq_some_iff] at hname
    obtain ⟨⟨_, design'⟩, hitem, rfl⟩ := hname
    have hget : s.descriptions.get? _ = some design' :=
      Dict.mem_items_iff.mp (List.mem_of_getElem? hitem)
    obtain rfl := Option.some.inj (hget.symm.trans (get?_of_getItem hdesign))
    have hvalue : s.descriptions.values[d + 1]? = some design' := by
      rw [Dict.values, List.getElem?_map, hitem]
      rfl
    refine ⟨d, design', ds, hvalue, ?_, hids⟩
    have hdims := getElem?_of_listItem hdims
    rw [componentDims, constructComponentDims, List.getElem?_map, hvalue] at hdims
    obtain rfl := Option.some.inj hdims
    rw [length_of_splitIdx hds]
    simp [Dict.keys, Dict.values]

namespace Separated

variable (h : s.Separated)

include h

lemma dims_pos : ∀ r ∈ dimsOf s.design.items, 0 < r := by
  rw [dimsOf, List.forall_mem_map]
  exact fun p hp => List.length_pos_iff.mpr (h.nonempty _ s.design_mem_values p hp)

/-- The indices of the first design are recovered. -/
lemma vecToIdx_idxToVec_of_le (hpos : 1 ≤ i) (hle : i ≤ s.size) (hfirst : i ≤ s.firstSize) :
    (s.idxToVec i >>= fun vec => s.vecToIdx (vec.map fun id => some (.row id))) = .ok i := by
  obtain ⟨n, rfl⟩ : ∃ n : ℕ, i = n + 1 := ⟨(i - 1).toNat, by omega⟩
  have hvalid : s.valid (n + 1) = .ok () := by rw [valid, if_pos ⟨by omega, hle⟩]
  have hlt : n < (dimsOf s.design.items).prod := by
    have := hfirst.trans (npProd_le _)
    omega
  have hsmall : n < 2 ^ 63 := by
    have := Counted.npProd_lt (dimsOf s.design.items)
    rw [firstSize] at hfirst
    omega
  have hfind : s.accDesignSize.findIdx? (fun acc => (n : ℤ) < acc) = some 0 := by
    obtain ⟨rest, hacc⟩ := s.exists_accDesignSize
    rw [hacc, List.findIdx?_cons, if_pos (decide_eq_true (by omega))]
  obtain ⟨name, hname, hdesign⟩ := s.exists_getItem_design
  obtain ⟨ids, hpick, hindex⟩ := exists_pickCandidates Counted.design_get?
    (h.nodup _ s.design_mem_values) (digits_lt h.dims_pos n)
  have hpick : pickCandidates s.design s.components (digits (dimsOf s.design.items) n) = .ok ids :=
    hpick
  have hindex : indexCandidates s.design s.components (ids.map fun id => some (.row id)) =
      .ok (digits (dimsOf s.design.items) n) := hindex
  simp only [idxToVec, hvalid, ok_bind, add_sub_cancel_right, hfind, offset, if_true, sub_zero,
    s.listItem_componentDims, splitIdx_eq h.dims_pos, hname, hdesign, hpick, vecToIdx, hindex,
    sum_npProd_digits hsmall hlt]
  rfl

/-- The vectors of the other designs are not found in the first one. -/
lemma le_of_vecToIdx_idxToVec
    (htrip : (s.idxToVec i >>= fun vec => s.vecToIdx (vec.map fun id => some (.row id))) = .ok i) :
    i ≤ s.firstSize := by
  by_contra hlt
  obtain ⟨ids, hids, htrip⟩ := bind_eq_ok htrip
  obtain ⟨d, design', ds, hvalue, hlen, hpick⟩ := exists_of_idxToVec (not_le.mp hlt) hids
  have hkeys := h.components design' (List.mem_of_getElem? hvalue)
  have hbelongs := belongs_of_pickCandidates (hlen.trans hkeys.length_eq) hpick
  obtain ⟨name, hname, hdesign⟩ := s.exists_getItem_design
  simp only [vecToIdx, hname, hdesign, ok_bind] at htrip
  obtain ⟨ks, hks, -⟩ := bind_eq_ok htrip
  have hfirst := belongs_of_indexCandidates hbelongs.length_eq.symm hks
  obtain ⟨name', rest, hitems⟩ := s.exists_items
  have hvalues : s.descriptions.values = s.design :: rest.map Prod.snd := by
    rw [Dict.values, hitems, List.map_cons]
  have hdisjoint := h.disjoint
  rw [hvalues, List.pairwise_cons] at hdisjoint
  rw [hvalues, List.getElem?_cons_succ] at hvalue
  exact hdisjoint.1 design' (List.mem_of_getElem? hvalue) ids hfirst hbelongs

end Separated

/-- An index is recovered from its vector if and only if it is an index of the first design. -/
theorem vecToIdx_idxToVec_iff (s : O3CPUDesignSpace) (h : s.Separated) (i : ℤ) (hpos : 1 ≤ i)
    (hle : i ≤ s.size) :
    (s.idxToVec i >>= fun vec => s.vecToIdx (vec.map fun id => some (.row id))) = .ok i ↔
      i ≤ s.firstSize :=
  ⟨h.le_of_vecToIdx_idxToVec, h.vecToIdx_idxToVec_of_le hpos hle⟩

/-- Two designs of one component each, the first of them with two candidates. -/
def twoDesigns : O3CPUDesignSpace where
  descriptions := ⟨[("2-wide", ⟨[("ROB", [1, 2])], by decide⟩),
    ("3-wide", ⟨[("ROB", [3])], by decide⟩)], by decide⟩
  componentsMappings := ⟨[("ROB", ⟨["numROBEntries"],
    ⟨[(1, [32]), (2, [64]), (3, [128])], by decide⟩⟩)], by decide⟩
  size := 3
  nonempty := by decide
  size_eq := by decide

lemma twoDesigns_separated : twoDesigns.Separated where
  components := by decide
  nonempty := by decide
  nodup := by decide
  disjoint := by
    refine List.pairwise_pair.mpr fun vec hvec hvec' => ?_
    cases hvec with
    | cons hid _ =>
      cases hvec' with
      | cons hid' _ =>
        obtain ⟨_, hget, hid⟩ := hid
        obtain ⟨_, hget', hid'⟩ := hid'
        obtain rfl := Option.some.inj hget
        obtain rfl := Option.some.inj hget'
        obtain rfl := List.mem_singleton.mp hid'
        exact absurd hid (by decide)

theorem vecToIdx_idxToVec_twoDesigns :
    twoDesigns.Separated ∧
      (twoDesigns.idxToVec 2 >>= fun vec => twoDesigns.vecToIdx (vec.map fun id => some (.row id)))
        = .ok 2 :=
  ⟨twoDesigns_separated,
    (vecToIdx_idxToVec_iff _ twoDesigns_separated 2 (by decide) (by decide)).mpr (by decide)⟩

theorem twoDesigns_vecToIdx :
    twoDesigns.Separated ∧ twoDesigns.size = 3 ∧ twoDesigns.idxToVec 3 = .ok [3] ∧
      twoDesigns.vecToIdx [some (.row 3)] = .error (.valueError "3 is not in list") :=
  ⟨twoDesigns_separated, by decide, by decide, by decide⟩

end O3CPUDesignSpace

end ArchExplorer.Design
