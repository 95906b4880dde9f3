import ArchExplorer.Design.Encoding

/-!
# Samplers of designs

The initialization of a dataset, the candidate pool of the AdaBoost baseline and the design space of
the BOOM-Explorer baseline draw indices with `random.sample(range(size), k)` and convert them to
embeddings. What is drawn is an input of the definitions; `Drawn` says what can be drawn.
-/

namespace ArchExplorer.Baseline

open ArchExplorer.Lib ArchExplorer.Design

variable {s : O3CPUDesignSpace} {size idx : ℤ} {k : ℕ} {L P l draws rest : List ℤ}

/-- An outcome of `random.sample(range(size), k)`. -/
structure Drawn (size : ℤ) (k : ℕ) (l : List ℤ) : Prop where
  length_eq : l.length = k
  nodup : l.Nodup
  mem_range : ∀ idx ∈ l, 0 ≤ idx ∧ idx < size

/-! ### The samplers -/

/-- The loop of `initialize`: a group is drawn and converted in each iteration, and what `rted`
selects from it is added to the sample. The result is `none` if the groups do not suffice. -/
def initializeSample (s : O3CPUDesignSpace) (rted : ℕ → List (List ℤ) → List (List ℤ)) (size : ℕ) :
    ℕ → List (List ℤ) → List (List ℤ) → Except PyError (Option (List (List ℤ)))
  | _, [],              sample =>
    return if sample.length < size then none else some sample
  | i, group :: groups, sample => do
    if sample.length < size then
      let embeddings ← group.mapM s.idxToEmbedding
      let sample := (rted i embeddings).foldl
        (fun sample j => if j ∈ sample then sample else sample ++ [j]) sample
      initializeSample s rted size (i + 1) groups sample
    else
      return some sample

/-- Draw until an index is not in `L`: the index and the draws that are left. -/
def drawOutside (L : List ℤ) : List ℤ → Option (ℤ × List ℤ)
  | []           => none
  | idx :: draws => if idx ∈ L then drawOutside L draws else some (idx, draws)

/-- `generate_P_from_U` with its draws. The result is `none` if the draws do not suffice. -/
def generatePFromU : ℕ → List ℤ → List ℤ → Option (List ℤ × List ℤ)
  | 0,     _, draws => some ([], draws)
  | k + 1, L, draws => do
    let (idx, draws) ← drawOutside L draws
    let (P, draws) ← generatePFromU k L draws
    return (idx :: P, draws)

/-- `generate_design_space` of the BOOM-Explorer baseline. -/
def generateDesignSpace (s : O3CPUDesignSpace) (draw : List ℤ) : Except PyError (List (List ℤ)) :=
  draw.mapM s.idxToEmbedding

/-- A pool that `generate_P_from_U` can return, each draw a `random.sample` of one index. -/
def PoolOf (size : ℤ) (k : ℕ) (L P : List ℤ) : Prop :=
  ∃ draws rest, (∀ idx ∈ draws, Drawn size 1 [idx]) ∧ generatePFromU k L draws = some (P, rest)

/-! ### Pools -/

/-- The first `k` draws that are not in `L`. -/
def accepted (k : ℕ) (L draws : List ℤ) : List ℤ := (draws.filter (· ∉ L)).take k

lemma accepted_succ (L : List ℤ) {draws : List ℤ} (h : draws.filter (· ∉ L) = idx :: rest) :
    accepted (k + 1) L draws = idx :: rest.take k := by
  rw [accepted, h, List.take_succ_cons]

lemma drawOutside_eq_some (h : drawOutside L draws = some (idx, rest)) :
    idx ∉ L ∧ (∃ used, draws = used ++ idx :: rest) ∧
      draws.filter (· ∉ L) = idx :: rest.filter (· ∉ L) := by
  induction draws with
  | nil => cases h
  | cons d draws ih =>
    rw [drawOutside] at h
    split_ifs at h with hd
    · obtain ⟨hidx, ⟨used, rfl⟩, hfilter⟩ := ih h
      refine ⟨hidx, ⟨d :: used, rfl⟩, ?_⟩
      rw [List.filter_cons_of_neg (by simpa using hd), hfilter]
    · cases h
      exact ⟨hd, ⟨[], rfl⟩, List.filter_cons_of_pos (by simpa using hd)⟩

lemma generatePFromU_succ (h : generatePFromU (k + 1) L draws = some (P, rest)) :
    ∃ idx P' draws', drawOutside L draws = some (idx, draws') ∧
      generatePFromU k L draws' = some (P', rest) ∧ P = idx :: P' := by
  rw [generatePFromU] at h
  simp only [Option.bind_eq_bind, Option.bind_eq_some_iff] at h
  obtain ⟨⟨idx, draws'⟩, hidx, ⟨P', rest'⟩, hP, h⟩ := h
  cases h
  exact ⟨idx, P', draws', hidx, hP, rfl⟩

/-- The pool has the size that was asked for, was drawn, and avoids the labelled designs. -/
lemma generatePFromU_spec (h : generatePFromU k L draws = some (P, rest)) :
    P.length = k ∧ (∀ idx ∈ P, idx ∈ draws ∧ idx ∉ L) ∧ ∃ used, draws = used ++ rest := by
  induction k generalizing draws P with
  | zero =>
    cases h
    exact ⟨rfl, by simp, [], rfl⟩
  | succ k ih =>
    obtain ⟨idx, P', draws', hdraw, hgen, rfl⟩ := generatePFromU_succ h
    obtain ⟨hidx, ⟨used, rfl⟩, -⟩ := drawOutside_eq_some hdraw
    obtain ⟨hlen, hmem, used', rfl⟩ := ih hgen
    refine ⟨by rw [List.length_cons, hlen], ?_, used ++ idx :: used', by simp⟩
    intro j hj
    rcases List.mem_cons.mp hj with rfl | hj
    · exact ⟨by simp, hidx⟩
    · obtain ⟨hdrawn, hout⟩ := hmem j hj
      exact ⟨List.mem_append_right _ (List.mem_cons_of_mem _ hdrawn), hout⟩

/-- The pool is made of the first draws outside of `L`, repetitions included. -/
lemma generatePFromU_eq_accepted (h : generatePFromU k L draws = some (P, rest)) :
    P = accepted k L draws := by
  induction k generalizing draws P with
  | zero =>
    cases h
    rfl
  | succ k ih =>
    obtain ⟨idx, P', draws', hdraw, hgen, rfl⟩ := generatePFromU_succ h
    obtain ⟨-, -, hfilter⟩ := drawOutside_eq_some hdraw
    rw [accepted_succ L hfilter, ih hgen]
    rfl

/-- Draws outside of `L` are taken as they come. -/
lemma generatePFromU_of_disjoint (h : ∀ idx ∈ P, idx ∉ L) (rest : List ℤ) :
    generatePFromU P.length L (P ++ rest) = some (P, rest) := by
  induction P with
  | nil => rfl
  | cons idx P ih =>
    obtain ⟨hidx, hP⟩ := List.forall_mem_cons.mp h
    have hdraw : drawOutside L (idx :: P ++ rest) = some (idx, P ++ rest) := by
      rw [List.cons_append, drawOutside, if_neg hidx]
    rw [List.length_cons, generatePFromU, hdraw]
    simp [ih hP]

/-! ### Validity -/

/-- Whatever is drawn, only valid indices are, and each valid index outside of `L` can be drawn. -/
structure SamplesDesigns (s : O3CPUDesignSpace) (L : List ℤ) (outcome : List ℤ → Prop) : Prop where
  valid : ∀ l, outcome l → ∀ idx ∈ l, s.valid idx = .ok ()
  all : ∀ idx, s.valid idx = .ok () → idx ∉ L → ∃ l, outcome l ∧ idx ∈ l

lemma valid_eq_ok_iff : s.valid idx = .ok () ↔ 0 < idx ∧ idx ≤ s.size := by
  unfold O3CPUDesignSpace.valid
  split_ifs with h <;> simp [h]

/-- In a space without designs nothing is drawn, and nothing has to be. -/
lemma samplesDesigns_of_size (hs : s.size ≤ 0) {outcome : List ℤ → Prop}
    (h : ∀ l, outcome l → ∀ idx ∈ l, 0 ≤ idx ∧ idx < s.size) : SamplesDesigns s L outcome where
  valid l hl idx hidx := by
    have := h l hl idx hidx
    omega
  all idx hidx := by
    have := valid_eq_ok_iff.mp hidx
    omega

/-- The last design is never drawn from `range(size)`. -/
lemma size_of_samplesDesigns (h : SamplesDesigns s [] (Drawn s.size k)) : s.size ≤ 0 := by
  by_contra hs
  obtain ⟨l, hl, hmem⟩ := h.all s.size (valid_eq_ok_iff.mpr ⟨by omega, le_rfl⟩) (by simp)
  have := (hl.mem_range s.size hmem).2
  omega

lemma samplesDesigns_drawn_iff (s : O3CPUDesignSpace) (k : ℕ) :
    SamplesDesigns s [] (Drawn s.size k) ↔ s.size ≤ 0 :=
  ⟨size_of_samplesDesigns, fun hs => samplesDesigns_of_size hs fun _ hl => hl.mem_range⟩

lemma PoolOf.mem_range (h : PoolOf size k L P) (hidx : idx ∈ P) : 0 ≤ idx ∧ idx < size := by
  obtain ⟨draws, rest, hdraws, hgen⟩ := h
  obtain ⟨-, hmem, -⟩ := generatePFromU_spec hgen
  exact (hdraws idx (hmem idx hidx).1).mem_range idx (List.mem_singleton_self idx)

/-- The index 0 can be drawn again and again, since it is never labelled. -/
lemma poolOf_replicate_zero (hsize : 0 < size) (hL : 0 ∉ L) (k : ℕ) :
    PoolOf size k L (List.replicate k 0) := by
  refine ⟨List.replicate k 0, [], fun idx hidx => ?_, ?_⟩
  · rw [List.eq_of_mem_replicate hidx]
    exact ⟨rfl, List.nodup_singleton 0, by simpa using hsize⟩
  · have hgen := generatePFromU_of_disjoint (P := List.replicate k 0) (L := L)
      (fun idx hidx => List.eq_of_mem_replicate hidx ▸ hL) []
    rwa [List.length_replicate, List.append_nil] at hgen

lemma samplesDesigns_poolOf_iff (hk : 0 < k) (hL : ∀ idx ∈ L, s.valid idx = .ok ()) :
    SamplesDesigns s L (PoolOf s.size k L) ↔ s.size ≤ 0 := by
  refine ⟨fun h => ?_, fun hs => samplesDesigns_of_size hs fun _ hl _ => hl.mem_range⟩
  by_contra hs
  have hzero : 0 ∉ L := fun hmem => by
    have := valid_eq_ok_iff.mp (hL 0 hmem)
    omega
  have hpool := poolOf_replicate_zero (not_le.mp hs) hzero k
  have hvalid := h.valid _ hpool 0 (List.mem_replicate.mpr ⟨by omega, rfl⟩)
  have := valid_eq_ok_iff.mp hvalid
  omega

/-- A conversion of the index 0 fails. -/
lemma idxToEmbedding_zero (s : O3CPUDesignSpace) :
    s.idxToEmbedding 0 = .error (.assertionError "[ERROR] invalid index.") := by
  rw [O3CPUDesignSpace.idxToEmbedding, O3CPUDesignSpace.idxToVec, O3CPUDesignSpace.valid,
    if_neg (by omega)]
  rfl

lemma mapM_error {l : List ℤ} (h : 0 ∈ l) : ∃ e, l.mapM s.idxToEmbedding = .error e := by
  induction l with
  | nil => simp at h
  | cons idx l ih =>
    rw [List.mapM_cons]
    cases hidx : s.idxToEmbedding idx with
    | error e => exact ⟨e, rfl⟩
    | ok embedding =>
      -- the conversion of 0 would have failed
      have hne : 0 ≠ idx := by
        rintro rfl
        rw [idxToEmbedding_zero] at hidx
        cases hidx
      obtain ⟨e, he⟩ := ih ((List.mem_cons.mp h).resolve_left hne)
      exact ⟨e, by rw [ok_bind, he, error_bind]⟩

/-- None of the three samplers is right unless the space has no designs. A group or a list with the
index 0, which can be drawn, makes the conversion fail, and the last design is never drawn. -/
theorem samplers_valid_iff (s : O3CPUDesignSpace) (groupSize k : ℕ) (L : List ℤ) (hk : 0 < k)
    (hL : ∀ idx ∈ L, s.valid idx = .ok ()) :
    (SamplesDesigns s [] (Drawn s.size groupSize) ↔ s.size ≤ 0) ∧
      (SamplesDesigns s L (PoolOf s.size k L) ↔ s.size ≤ 0) ∧
      (SamplesDesigns s [] (Drawn s.size 100) ↔ s.size ≤ 0) ∧
      (∀ rted size i group groups sample, sample.length < size → 0 ∈ group →
        ∃ e, initializeSample s rted size i (group :: groups) sample = .error e) ∧
      ∀ draw, 0 ∈ draw → ∃ e, generateDesignSpace s draw = .error e := by
  refine ⟨samplesDesigns_drawn_iff s groupSize, samplesDesigns_poolOf_iff hk hL,
    samplesDesigns_drawn_iff s 100, ?_, fun draw => mapM_error⟩
  intro rted size i group groups sample hlt hzero
  obtain ⟨e, he⟩ := mapM_error (s := s) hzero
  refine ⟨e, ?_⟩
  rw [initializeSample, if_pos hlt, he, error_bind]

theorem samplers_valid_iff_two :
    (∀ idx ∈ [1], O3CPUDesignSpace.twoComponents.valid idx = .ok ()) ∧
      ¬SamplesDesigns .twoComponents [] (Drawn O3CPUDesignSpace.twoComponents.size 1) ∧
      ¬SamplesDesigns .twoComponents [1] (PoolOf O3CPUDesignSpace.twoComponents.size 64 [1]) ∧
      ¬SamplesDesigns .twoComponents [] (Drawn O3CPUDesignSpace.twoComponents.size 100) := by
  have hL : ∀ idx ∈ [1], O3CPUDesignSpace.twoComponents.valid idx = .ok () := by decide
  have hsize : ¬O3CPUDesignSpace.twoComponents.size ≤ 0 := by decide
  obtain ⟨hgroup, hpool, hspace, -⟩ := samplers_valid_iff .twoComponents 1 64 [1] (by decide) hL
  exact ⟨hL, fun h => hsize (hgroup.mp h), fun h => hsize (hpool.mp h),
    fun h => hsize (hspace.mp h)⟩

/-- In a space of two designs the groups with one index are `[0]` and `[1]`. The first one stops the
initialization, and the design with the index 2 is in neither. -/
theorem initializeSample_zero :
    Drawn O3CPUDesignSpace.twoComponents.size 1 [0] ∧
      initializeSample .twoComponents (fun _ embeddings => embeddings) 1 0 [[0]] [] =
        .error (.assertionError "[ERROR] invalid index.") ∧
      O3CPUDesignSpace.twoComponents.valid 2 = .ok () ∧
      ∀ group, Drawn O3CPUDesignSpace.twoComponents.size 1 group → 2 ∉ group := by
  refine ⟨⟨rfl, by decide, by decide⟩, rfl, by decide, fun group hgroup hmem => ?_⟩
  exact absurd (hgroup.mem_range 2 hmem).2 (by decide)

end ArchExplorer.Baseline
