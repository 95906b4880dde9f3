import ArchExplorer.Design.Space
import ArchExplorer.Lib.MixedRadix

/-!
# Indices and embeddings

The positions of the chosen candidates are the digits of the index, and the embedding is the
concatenation of their rows. The way back from an embedding goes through a search in the tables
that also compares with the descriptions.
-/

namespace ArchExplorer.Design

open ArchExplorer.Lib MixedRadix

/-- The candidates of a component are rows of its table, and the rows of the table are distinct and
as long as the description. -/
def Tabled (mappings : Dict String Table) (name : String) (candidates : List ℤ) : Prop :=
  ∃ t, mappings.get? name = some t ∧
    (∀ id ∈ candidates, id ∈ t.rows.keys) ∧ t.rows.values.Nodup ∧
    ∀ row ∈ t.rows.values, row.length = t.description.length

/-- A component with distinct candidates. -/
structure Proper (mappings : Dict String Table) (name : String) (candidates : List ℤ) : Prop where
  nonempty : candidates ≠ []
  nodup : candidates.Nodup
  table : Tabled mappings name candidates

/-- One candidate for each of the given components: its position, its number and its row. -/
inductive Encoded (mappings : Dict String Table) :
    List (String × List ℤ) → List ℕ → List ℤ → List (List ℤ) → Prop
  | nil : Encoded mappings [] [] [] []
  | cons {c candidates t d id row l ds ids rows} :
      mappings.get? c = some t → candidates[d]? = some id → t.rows.get? id = some row →
      Encoded mappings l ds ids rows →
      Encoded mappings ((c, candidates) :: l) (d :: ds) (id :: ids) (row :: rows)

/-- The numbers of the candidates. -/
def dimsOf (l : List (String × List ℤ)) : List ℕ := l.map fun p => p.2.length

@[simp] lemma getItem_of_get? {V : Type} {d : Dict String V} {k : String} {v : V}
    (h : d.get? k = some v) : getItem d k = .ok v := by
  simp only [getItem, h]

lemma getElem?_of_listItem {V : Type} {l : List V} {i : ℕ} {v : V} (h : listItem l i = .ok v) :
    l[i]? = some v := by
  rw [listItem] at h
  split at h
  · rw [‹l[i]? = some _›, Except.ok.inj h]
  · cases h

lemma get?_of_getItem {V : Type} {d : Dict String V} {k : String} {v : V}
    (h : getItem d k = .ok v) : d.get? k = some v := by
  rw [getItem] at h
  split at h
  · rw [‹d.get? k = some _›, Except.ok.inj h]
  · cases h

lemma splitIdx_eq {dims : List ℕ} (hpos : ∀ r ∈ dims, 0 < r) (n : ℕ) :
    splitIdx dims n = .ok (digits dims n) := by
  induction dims generalizing n with
  | nil => rfl
  | cons r dims ih =>
    obtain ⟨hr, hrs⟩ := List.forall_mem_cons.mp hpos
    have hmod : ((n : ℤ) % (r : ℤ)).toNat = n % r := by
      rw [← Int.natCast_mod, Int.toNat_natCast]
    rw [splitIdx, if_neg hr.ne', ← Int.natCast_div, ih hrs, hmod]
    rfl

section Choice

variable {mappings : Dict String Table} {l : List (String × List ℤ)} {ds : List ℕ} {ids : List ℤ}
  {rows : List (List ℤ)}

/-- Every choice of positions is encoded. -/
lemma exists_encoded (hl : ∀ p ∈ l, Tabled mappings p.1 p.2)
    (hds : List.Forall₂ (· < ·) ds (dimsOf l)) : ∃ ids rows, Encoded mappings l ds ids rows := by
  induction l generalizing ds with
  | nil =>
    cases hds
    exact ⟨[], [], .nil⟩
  | cons p l ih =>
    obtain ⟨hp, hl⟩ := List.forall_mem_cons.mp hl
    cases hds with
    | @cons d _ ds _ hd hds =>
      obtain ⟨ids, rows, henc⟩ := ih hl hds
      obtain ⟨t, ht, hrow, -, -⟩ := hp
      obtain ⟨row, hget⟩ := Dict.mem_keys_iff.mp (hrow _ (List.getElem_mem hd))
      exact ⟨_, _, .cons ht (List.getElem?_eq_getElem hd) hget henc⟩

namespace Encoded

lemma positions (h : Encoded mappings l ds ids rows) : List.Forall₂ (· < ·) ds (dimsOf l) := by
  induction h with
  | nil => exact .nil
  | cons _ hid _ _ ih => exact .cons (List.getElem?_eq_some_iff.mp hid).1 ih

lemma pickCandidates {design : Dict String (List ℤ)} (h : Encoded mappings l ds ids rows)
    (hl : ∀ p ∈ l, design.get? p.1 = some p.2) :
    pickCandidates design (l.map Prod.fst) ds = .ok ids := by
  induction h with
  | nil => rfl
  | cons _ hid _ _ ih =>
    obtain ⟨hp, hl⟩ := List.forall_mem_cons.mp hl
    simp only [List.map_cons, Design.pickCandidates, getItem_of_get? hp, ok_bind, listItem, hid,
      ih hl]
    rfl

lemma vecToEmbedding (h : Encoded mappings l ds ids rows) :
    vecToEmbedding mappings (l.map Prod.fst) ids = .ok rows.flatten := by
  induction h with
  | nil => rfl
  | cons ht _ hrow _ ih =>
    simp only [List.map_cons, Design.vecToEmbedding, getMappingParams, getItem_of_get? ht, ok_bind,
      hrow, ih]
    rfl

end Encoded

/-- A row of a table without duplicate rows is found under its own number, unless the description is
empty. -/
lemma getMappingIdx_row {t : Table} {id : ℤ} {row : List ℤ} (hnodup : t.rows.values.Nodup)
    (hne : t.description ≠ []) (hrow : t.rows.get? id = some row) :
    getMappingIdx t row = some (.row id) := by
  have hmem : (id, row) ∈ t.rows.items := Dict.mem_items_iff.mpr hrow
  have hsome : (t.rows.items.find? fun p => decide (row = p.2)).isSome :=
    List.find?_isSome.mpr ⟨(id, row), hmem, by simp⟩
  obtain ⟨p, hp⟩ := Option.isSome_iff_exists.mp hsome
  have heq : row = p.2 := by simpa using List.find?_some hp
  have hp' : p = (id, row) :=
    List.inj_on_of_nodup_map hnodup (List.mem_of_find?_eq_some hp) hmem heq.symm
  rw [getMappingIdx, if_neg fun h => hne h.2, hp, hp']
  rfl

lemma indexOf_row {candidates : List ℤ} {d : ℕ} {id : ℤ} (hnodup : candidates.Nodup)
    (hid : candidates[d]? = some id) : indexOf candidates (some (.row id)) = .ok d := by
  obtain ⟨hd, hget⟩ := List.getElem?_eq_some_iff.mp hid
  have hfind : candidates.findIdx? (· = id) = some d := by
    rw [List.findIdx?_eq_some_iff_getElem]
    refine ⟨hd, by simpa using hget, fun j hj => ?_⟩
    have hne : candidates[j] ≠ candidates[d] := fun h => hj.ne ((hnodup.getElem_inj_iff).mp h)
    simpa [hget] using hne
  simp only [indexOf, hfind]

/-- A row at the front of an embedding leaves the parameters of the other components. -/
lemma embeddingToVec_cons {c : String} {t : Table} {row : List ℤ} (names : List String)
    (rest : List ℤ) (ht : mappings.get? c = some t) (hlen : row.length = t.description.length) :
    embeddingToVec mappings (c :: names) (row ++ rest) =
      embeddingToVec mappings names rest >>= fun vec => .ok (getMappingIdx t row :: vec) := by
  simp only [embeddingToVec, getItem_of_get? ht, ok_bind, ← hlen, List.take_left, List.drop_left]
  rfl

/-- Every description of the given components has a parameter. -/
def Described (mappings : Dict String Table) (names : List String) : Prop :=
  ∀ c ∈ names, ∀ t, mappings.get? c = some t → t.description ≠ []

namespace Encoded

lemma embeddingToVec (h : Encoded mappings l ds ids rows)
    (hl : ∀ p ∈ l, Tabled mappings p.1 p.2) (hdesc : Described mappings (l.map Prod.fst)) :
    embeddingToVec mappings (l.map Prod.fst) rows.flatten =
      .ok (ids.map fun id => some (.row id)) := by
  induction h with
  | nil => rfl
  | @cons c _ t _ id row l _ _ _ ht _ hrow _ ih =>
    obtain ⟨hp, hl⟩ := List.forall_mem_cons.mp hl
    obtain ⟨hc, hdesc⟩ := List.forall_mem_cons.mp hdesc
    obtain ⟨t', ht', -, hnodup, hlen⟩ := hp
    obtain rfl : t = t' := Option.some.inj (ht.symm.trans ht')
    have hmem : row ∈ t.rows.values := List.mem_map.mpr ⟨_, Dict.mem_items_iff.mpr hrow, rfl⟩
    rw [List.map_cons, List.flatten_cons, embeddingToVec_cons _ _ ht (hlen row hmem), ih hl hdesc,
      getMappingIdx_row hnodup (hc t ht) hrow]
    rfl

lemma exists_embeddingToVec (h : Encoded mappings l ds ids rows)
    (hl : ∀ p ∈ l, Tabled mappings p.1 p.2) :
    ∃ vec, Design.embeddingToVec mappings (l.map Prod.fst) rows.flatten = .ok vec := by
  induction h with
  | nil => exact ⟨[], rfl⟩
  | @cons c _ t _ id row l _ _ _ ht _ hrow _ ih =>
    obtain ⟨hp, hl⟩ := List.forall_mem_cons.mp hl
    obtain ⟨t', ht', -, -, hlen⟩ := hp
    obtain rfl : t = t' := Option.some.inj (ht.symm.trans ht')
    have hmem : row ∈ t.rows.values := List.mem_map.mpr ⟨_, Dict.mem_items_iff.mpr hrow, rfl⟩
    obtain ⟨vec, hvec⟩ := ih hl
    rw [List.map_cons, List.flatten_cons, embeddingToVec_cons _ _ ht (hlen row hmem), hvec]
    exact ⟨_, rfl⟩

lemma indexCandidates {design : Dict String (List ℤ)} (h : Encoded mappings l ds ids rows)
    (hl : ∀ p ∈ l, Proper mappings p.1 p.2) (hget : ∀ p ∈ l, design.get? p.1 = some p.2) :
    indexCandidates design (l.map Prod.fst) (ids.map fun id => some (.row id)) = .ok ds := by
  induction h with
  | nil => rfl
  | cons _ hid _ _ ih =>
    obtain ⟨hp, hl⟩ := List.forall_mem_cons.mp hl
    obtain ⟨hc, hget⟩ := List.forall_mem_cons.mp hget
    simp only [List.map_cons, Design.indexCandidates, getItem_of_get? hc, ok_bind,
      indexOf_row hp.nodup hid, ih hl hget]
    rfl

/-- The search of the first empty description is answered by the description, which is no
candidate. -/
lemma indexCandidates_error {design : Dict String (List ℤ)} (h : Encoded mappings l ds ids rows)
    (hl : ∀ p ∈ l, Proper mappings p.1 p.2) (hget : ∀ p ∈ l, design.get? p.1 = some p.2)
    (hdesc : ¬ Described mappings (l.map Prod.fst)) :
    ∃ vec e, Design.embeddingToVec mappings (l.map Prod.fst) rows.flatten = .ok vec ∧
      Design.indexCandidates design (l.map Prod.fst) vec = .error e := by
  induction h with
  | nil => exact absurd (by simp [Described]) hdesc
  | @cons c _ t _ id row l ds ids rows ht hid hrow henc ih =>
    obtain ⟨hp, hl⟩ := List.forall_mem_cons.mp hl
    obtain ⟨hc, hget⟩ := List.forall_mem_cons.mp hget
    obtain ⟨t', ht', -, hnodup, hlen⟩ := hp.table
    obtain rfl : t = t' := Option.some.inj (ht.symm.trans ht')
    have hmem : row ∈ t.rows.values := List.mem_map.mpr ⟨_, Dict.mem_items_iff.mpr hrow, rfl⟩
    rw [List.map_cons, List.flatten_cons, embeddingToVec_cons _ _ ht (hlen row hmem)]
    by_cases hempty : t.description = []
    · have hrow : row = [] := by
        rw [← List.length_eq_zero_iff, hlen row hmem, hempty, List.length_nil]
      obtain ⟨vec, hvec⟩ := henc.exists_embeddingToVec fun p hp => (hl p hp).table
      refine ⟨getMappingIdx t row :: vec, .valueError "'description' is not in list",
        by rw [hvec]; rfl, ?_⟩
      rw [getMappingIdx, if_pos ⟨hrow, hempty⟩, Design.indexCandidates, getItem_of_get? hc]
      rfl
    · have hrest : ¬ Described mappings (l.map Prod.fst) := by
        refine fun hrest => hdesc (List.forall_mem_cons.mpr ⟨fun t' ht' => ?_, hrest⟩)
        obtain rfl : t = t' := Option.some.inj (ht.symm.trans ht')
        exact hempty
      obtain ⟨vec, e, hvec, herr⟩ := ih hl hget hrest
      refine ⟨getMappingIdx t row :: vec, e, by rw [hvec]; rfl, ?_⟩
      rw [getMappingIdx_row hnodup hempty hrow]
      simp only [Design.indexCandidates, getItem_of_get? hc, ok_bind, indexOf_row hp.nodup hid,
        herr, error_bind]

end Encoded

end Choice

/-! ### Spaces of one design -/

namespace O3CPUDesignSpace

/-- The components of the first design with their candidates. -/
def design (s : O3CPUDesignSpace) : Dict String (List ℤ) := (s.descriptions.items.head s.nonempty).2

/-- A space of one design whose vectors are counted in 64 bits. -/
structure Encodable (s : O3CPUDesignSpace) : Prop where
  one : s.descriptions.items.length = 1
  proper : ∀ p ∈ s.design.items, Proper s.componentsMappings p.1 p.2
  small : (dimsOf s.design.items).prod < 2 ^ 63

/-- A space of one design with a candidate for each component, whose vectors are counted in 64
bits. -/
structure Counted (s : O3CPUDesignSpace) : Prop where
  one : s.descriptions.items.length = 1
  nonempty : ∀ p ∈ s.design.items, p.2 ≠ []
  small : (dimsOf s.design.items).prod < 2 ^ 63

lemma Encodable.counted {s : O3CPUDesignSpace} (h : s.Encodable) : s.Counted :=
  ⟨h.one, fun p hp => (h.proper p hp).nonempty, h.small⟩

/-- An embedding made of one candidate row for each component. -/
def Assembled (s : O3CPUDesignSpace) (embedding : List ℤ) : Prop :=
  ∃ rows, embedding = rows.flatten ∧
    List.Forall₂ (fun p row => ∃ t, s.componentsMappings.get? p.1 = some t ∧
      ∃ id ∈ p.2, t.rows.get? id = some row) s.design.items rows

lemma Assembled.exists_encoded {s : O3CPUDesignSpace} {embedding : List ℤ}
    (h : s.Assembled embedding) : ∃ ds ids rows, embedding = rows.flatten ∧
      Encoded s.componentsMappings s.design.items ds ids rows := by
  obtain ⟨rows, rfl, h⟩ := h
  suffices ∃ ds ids, Encoded s.componentsMappings s.design.items ds ids rows by
    obtain ⟨ds, ids, henc⟩ := this
    exact ⟨ds, ids, rows, rfl, henc⟩
  generalize s.design.items = l at h ⊢
  induction h with
  | nil => exact ⟨[], [], .nil⟩
  | cons hp _ ih =>
    obtain ⟨ds, ids, henc⟩ := ih
    obtain ⟨t, ht, id, hid, hrow⟩ := hp
    obtain ⟨d, hd, hget⟩ := List.getElem_of_mem hid
    exact ⟨d :: ds, id :: ids, .cons ht (List.getElem?_eq_some_iff.mpr ⟨hd, hget⟩) hrow henc⟩

namespace Counted

variable {s : O3CPUDesignSpace} {ds : List ℕ} {ids : List ℤ} {rows : List (List ℤ)}

lemma items_eq (h : s.Counted) : ∃ name, s.descriptions.items = [(name, s.design)] := by
  obtain ⟨p, hp⟩ := List.length_eq_one_iff.mp h.one
  refine ⟨p.1, ?_⟩
  simp [design, hp]

lemma componentDims_eq (h : s.Counted) : s.componentDims = [dimsOf s.design.items] := by
  obtain ⟨name, hitems⟩ := h.items_eq
  simp [componentDims, constructComponentDims, Dict.values, hitems, dimsOf]

lemma npProd_eq {l : List ℕ} (h : l.prod < 2 ^ 63) : npProd l = l.prod := by
  have hle : -((2 ^ 64 : ℕ) : ℤ) ≤ (l.prod : ℤ) * 2 := by omega
  have hlt : (l.prod : ℤ) * 2 < ((2 ^ 64 : ℕ) : ℤ) := by omega
  exact Int.bmod_eq_of_le_mul_two hle hlt

lemma npProd_lt (l : List ℕ) : npProd l < 2 ^ 63 := by
  have hlt : npProd l < (((2 ^ 64 : ℕ) : ℤ) + 1) / 2 := Int.bmod_lt (by norm_num)
  exact hlt.trans_le (by norm_num)

lemma bmod_npProd (l : List ℕ) : Int.bmod (npProd l) (2 ^ 64) = npProd l := Int.bmod_bmod ..

lemma npSum_singleton (l : List ℕ) : npSum [npProd l] = npProd l := by
  have hsum : npSum [npProd l] = Int.bmod (npProd l) (2 ^ 64) :=
    congrArg (fun n => Int.bmod n (2 ^ 64)) List.sum_singleton
  exact hsum.trans (bmod_npProd l)

lemma designSize_eq (h : s.Counted) :
    constructDesignSize s.descriptions = [((dimsOf s.design.items).prod : ℤ)] := by
  have hdims := h.componentDims_eq
  rw [componentDims] at hdims
  rw [constructDesignSize, hdims, List.map_singleton, npProd_eq h.small]

lemma size_eq (h : s.Counted) : s.size = (dimsOf s.design.items).prod := by
  have hsum := npSum_singleton (dimsOf s.design.items)
  rw [npProd_eq h.small] at hsum
  rw [← s.size_eq, h.designSize_eq, hsum]

lemma accDesignSize_eq (h : s.Counted) :
    s.accDesignSize = [((dimsOf s.design.items).prod : ℤ)] := by
  have hsmall := h.small
  rw [accDesignSize, h.designSize_eq, npCumsum, npCumsum, zero_add]
  exact congrArg (fun n => [n]) (npProd_eq hsmall)

lemma dims_pos (h : s.Counted) : ∀ r ∈ dimsOf s.design.items, 0 < r := by
  rw [dimsOf, List.forall_mem_map]
  exact fun p hp => List.length_pos_iff.mpr (h.nonempty p hp)

lemma design_get? (p : String × List ℤ) (hp : p ∈ s.design.items) :
    s.design.get? p.1 = some p.2 :=
  Dict.mem_items_iff.mp hp

lemma getItem_design (h : s.Counted) :
    ∃ name, listItem s.designs 0 = .ok name ∧ getItem s.descriptions name = .ok s.design := by
  obtain ⟨name, hitems⟩ := h.items_eq
  refine ⟨name, by simp [listItem, designs, Dict.keys, hitems], getItem_of_get? ?_⟩
  exact Dict.mem_items_iff.mp (by simp [hitems])

/-- The value of the positions is an index that is turned into the numbers of the candidates. -/
lemma idxToVec (h : s.Counted)
    (henc : Encoded s.componentsMappings s.design.items ds ids rows) :
    s.idxToVec (value (dimsOf s.design.items) ds + 1) = .ok ids := by
  have hlt := value_lt henc.positions
  have hvalid : s.valid (value (dimsOf s.design.items) ds + 1) = .ok () := by
    rw [valid, h.size_eq, if_pos (by omega)]
  have hfind : s.accDesignSize.findIdx?
      (fun acc => (value (dimsOf s.design.items) ds : ℤ) < acc) = some 0 := by
    rw [h.accDesignSize_eq, List.findIdx?_cons, if_pos (by exact_mod_cast decide_eq_true hlt)]
  obtain ⟨name, hname, hdesign⟩ := h.getItem_design
  have hdims : listItem s.componentDims 0 = .ok (dimsOf s.design.items) := by
    rw [h.componentDims_eq]
    rfl
  simp only [O3CPUDesignSpace.idxToVec, hvalid, ok_bind, add_sub_cancel_right, hfind, offset,
    if_true, sub_zero, hdims, splitIdx_eq h.dims_pos, digits_value henc.positions, hname, hdesign]
  exact henc.pickCandidates design_get?

lemma idxToEmbedding (h : s.Counted)
    (henc : Encoded s.componentsMappings s.design.items ds ids rows) :
    s.idxToEmbedding (value (dimsOf s.design.items) ds + 1) = .ok rows.flatten := by
  rw [O3CPUDesignSpace.idxToEmbedding, h.idxToVec henc]
  exact henc.vecToEmbedding

/-- The products of the lower radices do not wrap around. -/
lemma sum_npProd (h : s.Counted) (hds : ds.length = (dimsOf s.design.items).length) :
    (ds.zipIdx.map fun p => npProd ((dimsOf s.design.items).take p.2) * p.1).sum =
      (value (dimsOf s.design.items) ds : ℤ) := by
  have hprod (j : ℕ) : npProd ((dimsOf s.design.items).take j) =
      (((dimsOf s.design.items).take j).prod : ℤ) := by
    refine npProd_eq (lt_of_le_of_lt ?_ h.small)
    have hpos : 0 < ((dimsOf s.design.items).drop j).prod :=
      List.prod_pos fun r hr => h.dims_pos r (List.mem_of_mem_drop hr)
    calc ((dimsOf s.design.items).take j).prod
        ≤ ((dimsOf s.design.items).take j).prod * ((dimsOf s.design.items).drop j).prod :=
          Nat.le_mul_of_pos_right _ hpos
      _ = (dimsOf s.design.items).prod := List.prod_take_mul_prod_drop _ j
  rw [← sum_eq_value hds.le, Nat.cast_list_sum, List.map_map]
  refine congrArg List.sum (List.map_congr_left fun p _ => ?_)
  rw [hprod, Function.comp_apply, Nat.cast_mul]

/-- Positions of candidates are turned into their value. -/
lemma vecToIdx {vec : List (Option Key)} (h : s.Counted)
    (hindex : indexCandidates s.design s.components vec = .ok ds)
    (hds : List.Forall₂ (· < ·) ds (dimsOf s.design.items)) :
    s.vecToIdx vec = .ok (value (dimsOf s.design.items) ds + 1) := by
  have hlt := value_lt hds
  obtain ⟨name, hname, hdesign⟩ := h.getItem_design
  have hdims : listItem s.componentDims 0 = .ok (dimsOf s.design.items) := by
    rw [h.componentDims_eq]
    rfl
  have hvalid : s.valid (value (dimsOf s.design.items) ds + 1) = .ok () := by
    rw [valid, h.size_eq, if_pos (by omega)]
  simp only [O3CPUDesignSpace.vecToIdx, hname, hdesign, ok_bind, hindex, hdims,
    h.sum_npProd hds.length_eq, hvalid]
  rfl

/-- Every index is the value of an encoded choice. -/
lemma exists_value (h : s.Counted)
    (htable : ∀ p ∈ s.design.items, Tabled s.componentsMappings p.1 p.2) {i : ℤ} (hpos : 1 ≤ i)
    (hle : i ≤ s.size) :
    ∃ ds ids rows, Encoded s.componentsMappings s.design.items ds ids rows ∧
      i = value (dimsOf s.design.items) ds + 1 := by
  rw [h.size_eq] at hle
  have hlt : (i - 1).toNat < (dimsOf s.design.items).prod := by omega
  obtain ⟨ids, rows, henc⟩ := Design.exists_encoded htable (digits_lt h.dims_pos (i - 1).toNat)
  refine ⟨_, ids, rows, henc, ?_⟩
  rw [value_digits hlt]
  omega

end Counted

namespace Encodable

variable {s : O3CPUDesignSpace} {ds : List ℕ} {ids : List ℤ} {rows : List (List ℤ)}

lemma embeddingToIdx (h : s.Encodable) (hdesc : Described s.componentsMappings s.components)
    (henc : Encoded s.componentsMappings s.design.items ds ids rows) :
    s.embeddingToIdx rows.flatten = .ok (value (dimsOf s.design.items) ds + 1) := by
  have hvec : embeddingToVec s.componentsMappings s.components rows.flatten =
      .ok (ids.map fun id => some (.row id)) :=
    henc.embeddingToVec (fun p hp => (h.proper p hp).table) hdesc
  rw [O3CPUDesignSpace.embeddingToIdx, hvec]
  exact h.counted.vecToIdx (henc.indexCandidates h.proper Counted.design_get?) henc.positions

/-- The embedding of an index leads back to it. -/
lemma exists_embedding (h : s.Encodable) (hdesc : Described s.componentsMappings s.components)
    {i : ℤ} (hpos : 1 ≤ i) (hle : i ≤ s.size) :
    ∃ e, s.idxToEmbedding i = .ok e ∧ s.embeddingToIdx e = .ok i := by
  obtain ⟨ds, ids, rows, henc, rfl⟩ :=
    h.counted.exists_value (fun p hp => (h.proper p hp).table) hpos hle
  exact ⟨_, h.counted.idxToEmbedding henc, h.embeddingToIdx hdesc henc⟩

lemma embeddingToIdx_error (h : s.Encodable) (hdesc : ¬ Described s.componentsMappings s.components)
    (henc : Encoded s.componentsMappings s.design.items ds ids rows) :
    ∃ e, s.embeddingToIdx rows.flatten = .error e := by
  obtain ⟨vec, e, hvec, herr⟩ := henc.indexCandidates_error h.proper Counted.design_get? hdesc
  obtain ⟨name, hname, hdesign⟩ := h.counted.getItem_design
  have hvec' : embeddingToVec s.componentsMappings s.components rows.flatten = .ok vec := hvec
  have herr' : indexCandidates s.design s.components vec = .error e := herr
  refine ⟨e, ?_⟩
  simp only [O3CPUDesignSpace.embeddingToIdx, hvec', ok_bind, O3CPUDesignSpace.vecToIdx, hname,
    hdesign, herr', error_bind]

end Encodable

/-- Both round trips between indices and embeddings. -/
def RoundTrips (s : O3CPUDesignSpace) : Prop :=
  (∀ i : ℤ, 1 ≤ i → i ≤ s.size → (s.idxToEmbedding i >>= s.embeddingToIdx) = .ok i) ∧
    ∀ e, s.Assembled e → (s.embeddingToIdx e >>= s.idxToEmbedding) = .ok e

/-- In a space of one design the conversions are inverse to each other if and only if every
component has a parameter. -/
theorem roundTrips_iff (s : O3CPUDesignSpace) (h : s.Encodable) :
    s.RoundTrips ↔ Described s.componentsMappings s.components := by
  have htable : ∀ p ∈ s.design.items, Tabled s.componentsMappings p.1 p.2 :=
    fun p hp => (h.proper p hp).table
  constructor
  · intro htrips
    by_contra hdesc
    have hsize : 1 ≤ s.size := by
      have hpos : 0 < (dimsOf s.design.items).prod := List.prod_pos h.counted.dims_pos
      rw [h.counted.size_eq]
      omega
    obtain ⟨ds, ids, rows, henc, hi⟩ := h.counted.exists_value htable le_rfl hsize
    obtain ⟨e, herr⟩ := h.embeddingToIdx_error hdesc henc
    have htrip := htrips.1 1 le_rfl hsize
    rw [hi, h.counted.idxToEmbedding henc, ok_bind, herr] at htrip
    cases htrip
  · intro hdesc
    refine ⟨fun i hpos hle => ?_, fun e he => ?_⟩
    · obtain ⟨e, he, hi⟩ := h.exists_embedding hdesc hpos hle
      rw [he, ok_bind, hi]
    · obtain ⟨ds, ids, rows, rfl, henc⟩ := he.exists_encoded
      rw [h.embeddingToIdx hdesc henc, ok_bind, h.counted.idxToEmbedding henc]

/-- Two components, the first of them with two candidates and the second with two parameters. -/
def twoComponents : O3CPUDesignSpace where
  descriptions := ⟨[("o3cpu", ⟨[("ROB", [1, 2]), ("ISU", [1])], by decide⟩)], by decide⟩
  componentsMappings := ⟨[("ROB", ⟨["numROBEntries"], ⟨[(1, [32]), (2, [64])], by decide⟩⟩),
    ("ISU", ⟨["dispatchWidth", "issueWidth"], ⟨[(1, [1, 8])], by decide⟩⟩)], by decide⟩
  size := 2
  nonempty := by decide
  size_eq := by decide

lemma twoComponents_encodable : twoComponents.Encodable where
  one := by decide
  proper := by
    intro p hp
    simp only [twoComponents, design, List.head_cons, List.mem_cons, List.not_mem_nil, or_false]
      at hp
    rcases hp with rfl | rfl
    · exact ⟨by decide, by decide, _, rfl, by decide, by decide, by decide⟩
    · exact ⟨by decide, by decide, _, rfl, by decide, by decide, by decide⟩
  small := by decide

theorem roundTrips_twoComponents : twoComponents.Encodable ∧ twoComponents.RoundTrips := by
  refine ⟨twoComponents_encodable, (roundTrips_iff _ twoComponents_encodable).mpr ?_⟩
  intro c hc
  simp only [twoComponents, components, Dict.keys, List.head_cons, List.map_cons, List.map_nil,
    List.mem_cons, List.not_mem_nil, or_false] at hc
  rcases hc with rfl | rfl <;> rintro t ⟨⟩ <;> decide

/-- One component without parameters, whose only candidate is a row without entries. -/
def noParameters : O3CPUDesignSpace where
  descriptions := ⟨[("o3cpu", ⟨[("ISU", [1])], by decide⟩)], by decide⟩
  componentsMappings := ⟨[("ISU", ⟨[], ⟨[(1, [])], by decide⟩⟩)], by decide⟩
  size := 1
  nonempty := by decide
  size_eq := by decide

theorem noParameters_embeddingToIdx :
    noParameters.Encodable ∧ noParameters.idxToEmbedding 1 = .ok [] ∧
      noParameters.embeddingToIdx [] = .error (.valueError "'description' is not in list") := by
  refine ⟨⟨by decide, ?_, by decide⟩, by decide, by decide⟩
  intro p hp
  simp only [noParameters, design, List.head_cons, List.mem_singleton] at hp
  subst hp
  exact ⟨by decide, by decide, _, rfl, by decide, by decide, by decide⟩

end O3CPUDesignSpace

end ArchExplorer.Design
