import ArchExplorer.Lib.Assoc
import ArchExplorer.Compare.Dependences

/-!
# Edges between instructions in the two analyses

Between two vertices the C++ analysis reads the first edge that was entered, and the Python analysis
keeps the last edge that was added. The edges are the same if no two dependences of an instruction
join the same vertices, if register conflicts of floating point multiplications and divisions are
hidden behind the instruction queue, and if the joined stages are in order.
-/

namespace ArchExplorer.Compare

open ArchExplorer.Lib

variable {i p : Deg.RiscvInstruction} {past insts : List Deg.RiscvInstruction}
  {u v : Deg.Vertex}

/-! ### The condition -/

/-- What makes the two analyses agree about the dependences of `i` on the instructions `past`. -/
structure Consistent (past : List Deg.RiscvInstruction) (i : Deg.RiscvInstruction) : Prop where
  /-- No two dependences join the same stages of the same instruction. -/
  distinct : ((deps (Deg.rfBottleneck i) past i).map Prod.fst).Nodup
  /-- A register conflict that only one analysis charges is hidden behind the instruction queue. -/
  multDiv : i.useFpMultDiv = true → i.blockFromRf ≠ 0 → ∀ p,
    past.find? (Deg.rfConflict i) = some p →
      i.blockFromIq ≠ 0 ∧ past.find? (fun p => p.iq = i.iq) = some p
  /-- The earlier instruction passes its stage first. -/
  forward : ∀ d ∈ deps (Deg.rfBottleneck i) past i, early d.1.1 d.1.2 ≤ late d.1.1 i

/-- Every instruction of the trace is consistent with those before it. -/
def AllConsistent : List Deg.RiscvInstruction → Prop
  | []        => True
  | i :: past => AllConsistent past ∧ Consistent past i

lemma rfBottleneck_eq_none (h : i.useFpMultDiv = true) : Deg.rfBottleneck i = none := by
  unfold Deg.TraceLine.useFpMultDiv at h
  unfold Deg.rfBottleneck Deg.TraceLine.useIntRf Deg.TraceLine.useFpRf
  split at h <;> simp_all

lemma mem_backDeps_rename : (Kind.rename, p) ∈ (backDeps past i).map Prod.fst ↔
    i.blockFromIq ≠ 0 ∧ past.find? (fun p => p.iq = i.iq) = some p := by
  simp only [backDeps, List.map_append, List.mem_append, List.mem_map]
  constructor
  · rintro ((⟨d, hd, hk⟩ | ⟨d, hd, hk⟩) | ⟨d, hd, hk⟩)
    · obtain ⟨hc, q, hq, rfl⟩ := mem_found.mp hd
      obtain rfl : q = p := congrArg Prod.snd hk
      exact ⟨hc, hq⟩
    · obtain ⟨b, -, hd⟩ := List.mem_flatMap.mp hd
      obtain ⟨-, q, -, rfl⟩ := mem_found.mp hd
      exact absurd (congrArg Prod.fst hk) nofun
    · obtain ⟨-, q, -, rfl⟩ := mem_found.mp hd
      exact absurd (congrArg Prod.fst hk) nofun
  · rintro ⟨hc, hp⟩
    exact .inl (.inl ⟨_, mem_found.mpr ⟨hc, p, hp, rfl⟩, rfl⟩)

/-- The first entry of the one list and the last entry of the other are the same. -/
lemma lookup_deps_iff :
    (∀ k, (deps (Deg.rfBottleneck i) past i).lookup k =
      (deps (rfBottleneckP i) past i).reverse.lookup k) ↔
    ((deps (Deg.rfBottleneck i) past i).map Prod.fst).Nodup ∧
      (i.useFpMultDiv = true → i.blockFromRf ≠ 0 → ∀ p, past.find? (Deg.rfConflict i) = some p →
        i.blockFromIq ≠ 0 ∧ past.find? (fun p => p.iq = i.iq) = some p) := by
  by_cases hfp : i.useFpMultDiv = true
  · have hP : rfBottleneckP i = some .fpRF := if_pos hfp
    have hnodup : ((deps (rfBottleneckP i) past i).map Prod.snd).Nodup :=
      deps_nodup rfBottleneckP_mem
    rw [hP] at hnodup ⊢
    have hD : deps (Deg.rfBottleneck i) past i = frontDeps past i ++ backDeps past i := by
      simp [deps, rfDep, rfBottleneck_eq_none hfp]
    rw [hD]
    unfold deps rfDep at hnodup ⊢
    simp only [Option.toList_some, List.flatMap_singleton] at hnodup ⊢
    unfold found at hnodup ⊢
    split_ifs at hnodup ⊢ with hblock
    · cases hfind : past.find? (Deg.rfConflict i) with
      | none   =>
        rw [hfind] at hnodup
        simp only [Option.map_none, Option.toList_none, List.append_nil] at hnodup ⊢
        rw [lookup_reverse_iff hnodup]
        simp
      | some p =>
        rw [hfind] at hnodup
        simp only [Option.map_some, Option.toList_some, List.append_assoc, List.singleton_append]
          at hnodup ⊢
        rw [lookup_reverse_insert_iff hnodup, mem_backDeps_rename]
        simp [hfp, hblock]
    · simp only [List.append_nil] at hnodup ⊢
      rw [lookup_reverse_iff hnodup]
      simp [hblock]
  · have hP : rfBottleneckP i = Deg.rfBottleneck i := if_neg hfp
    rw [hP, lookup_reverse_iff (deps_nodup rfBottleneck_mem)]
    simp [hfp]

/-! ### The edges that are read -/

/-- The two analyses read the same edge for every dependence. -/
def SameDeps (past : List Deg.RiscvInstruction) (i : Deg.RiscvInstruction) : Prop :=
  ∀ k, ((deps (Deg.rfBottleneck i) past i).lookup k).map (fun t => edge (depEdge i (k, t))) =
    ((deps (rfBottleneckP i) past i).reverse.lookup k).map fun t => depEdgeP i (k, t)

lemma edge_depEdge_eq_iff {k : Kind × Deg.RiscvInstruction} {t t' : Cause} :
    edge (depEdge i (k, t)) = depEdgeP i (k, t') ↔
      early k.1 k.2 ≤ late k.1 i ∧ btnk (cause i k.2 t) = causeP i k.2 t' := by
  simp only [edge, depEdge, depEdgeP, Core.skewEdge, Core.Edge.mk.injEq, true_and, delay_eq_sub_iff]
  tauto

/-- The analyses charge a cause to the same bottleneck unless the delay wraps around. -/
lemma causeP_eq {rf : Option Deg.Bottleneck} {k : Kind × Deg.RiscvInstruction} {t : Cause}
    (h : (k, t) ∈ deps rf past i) (hle : early k.1 k.2 ≤ late k.1 i) :
    causeP i k.2 t = btnk (cause i k.2 t) := by
  cases t with
  | resource b => rfl
  | producer   =>
    rw [kind_of_producer h] at hle
    have hdelay : Deg.delay k.2.issue i.issue = (i.issue.toNat : ℤ) - k.2.issue.toNat :=
      delay_eq_sub hle
    simp only [causeP, cause, Core.rawBottleneck, Deg.rawBottleneck, isLoad_inst]
    split_ifs
    · rw [dcacheBottleneck_eq, hdelay]
      rfl
    · rfl

lemma sameDeps_iff : SameDeps past i ↔ Consistent past i := by
  -- causes that are read are among those that can occur
  have hmem {rf : Option Deg.Bottleneck} (hrf : rf ∈ [none, some .intRF, some .fpRF])
      {k : Kind × Deg.RiscvInstruction} {t : Cause} (h : (k, t) ∈ deps rf past i) :
      ∃ rf ∈ [none, some .intRF, some .fpRF], t ∈ causes rf i :=
    ⟨rf, hrf, deps_sublist.subset (List.mem_map_of_mem h)⟩
  constructor
  · intro h
    have hforward : ∀ d ∈ deps (Deg.rfBottleneck i) past i, early d.1.1 d.1.2 ≤ late d.1.1 i := by
      intro d hd
      obtain ⟨t, ht⟩ := exists_lookup (List.mem_map_of_mem hd)
      have hread := h d.1
      rw [ht, Option.map_some, eq_comm, Option.map_eq_some_iff] at hread
      obtain ⟨t', -, heq⟩ := hread
      exact (edge_depEdge_eq_iff.mp heq.symm).1
    obtain ⟨hdistinct, hmultDiv⟩ := lookup_deps_iff.mp fun k => by
      have hread := h k
      cases ht : (deps (Deg.rfBottleneck i) past i).lookup k with
      | none   =>
        rw [ht, Option.map_none, eq_comm, Option.map_eq_none_iff] at hread
        exact hread.symm
      | some t =>
        rw [ht, Option.map_some, eq_comm, Option.map_eq_some_iff] at hread
        obtain ⟨t', ht', heq⟩ := hread
        obtain ⟨hle, hcause⟩ := edge_depEdge_eq_iff.mp heq.symm
        have hk := mem_of_lookup ht
        have hk' := List.mem_reverse.mp (mem_of_lookup ht')
        rw [causeP_eq hk' hle] at hcause
        rw [ht', cause_inj (hmem rfBottleneck_mem hk) (hmem rfBottleneckP_mem hk')
          (btnk_injective hcause)]
    exact ⟨hdistinct, hmultDiv, hforward⟩
  · intro h k
    rw [← lookup_deps_iff.mpr ⟨h.distinct, h.multDiv⟩ k]
    cases ht : (deps (Deg.rfBottleneck i) past i).lookup k with
    | none   => rfl
    | some t =>
      have hk := mem_of_lookup ht
      have hle := h.forward _ hk
      exact congrArg some (edge_depEdge_eq_iff.mpr ⟨hle, (causeP_eq hk hle).symm⟩)

/-! ### Pairs of vertices -/

/-- The edge leads from `u` to `v`. -/
def joins (u v : Deg.Vertex) (e : Deg.Vertex × Deg.OutgoingEdge) : Bool := e.1 = u ∧ e.2.child = v

/-- The edge leads from `u` to `v`. -/
def joinsP (u v : Core.Node) (e : Core.Edge) : Bool := e.u = u ∧ e.v = v

lemma source_mem (k : Kind) (p : Deg.RiscvInstruction) : source k p ∈ Deg.stages p := by
  cases k
  · exact Deg.completeStage_mem
  · exact Deg.renameStage_mem
  · exact Deg.issueStage_mem

lemma target_mem (k : Kind) (i : Deg.RiscvInstruction) : target k i ∈ Deg.stages i := by
  cases k
  · exact Deg.firstStage_mem
  · exact Deg.renameStage_mem
  · exact Deg.issueStage_mem

lemma target_type_inj {k k' : Kind} (h : (target k i).type = (target k' i).type) : k = k' := by
  have hissue : (Deg.issueStage i).type ≠ .f1 ∧ (Deg.issueStage i).type ≠ .r := by
    unfold Deg.issueStage
    split_ifs <;> simp [Deg.single]
  cases k <;> cases k' <;> first
    | rfl
    | exact absurd h hissue.1
    | exact absurd h hissue.2
    | exact absurd h.symm hissue.1
    | exact absurd h.symm hissue.2
    | cases h

/-- Vertices of a trace are determined by their nodes. -/
lemma node_inj (hn : Deg.Numbered insts) (hu : Deg.Owned insts u) (hv : Deg.Owned insts v)
    (h : node u = node v) : u = v :=
  hu.eq hn hv (stage_injective (congrArg Core.Node.stage h)) (congrArg Core.Node.seq h)

/-- The edge that the C++ analysis reads for a dependence. -/
lemma find?_interactionEdges (k : Kind) (p : Deg.RiscvInstruction) :
    (Deg.interactionEdges past i).find? (joins (source k p) (target k i)) =
      ((deps (Deg.rfBottleneck i) past i).lookup (k, p)).map fun t => depEdge i ((k, p), t) := by
  rw [← map_deps]
  refine find?_map_lookup fun d _ => ?_
  rw [Bool.eq_iff_iff, beq_iff_eq, joins, decide_eq_true_eq]
  constructor
  · rintro ⟨hs, ht⟩
    have hk : d.1.1 = k := target_type_inj (congrArg Deg.Vertex.type ht)
    refine Prod.ext hk ?_
    rw [← (Deg.mem_stages (source_mem k p)).1, ← hs]
    exact (Deg.mem_stages (source_mem _ _)).1.symm
  · intro hd
    rw [depEdge, hd]
    exact ⟨rfl, rfl⟩

/-- The edge that the Python analysis keeps for a dependence. -/
lemma find?_interactionEdgesP (hn : Deg.Numbered (i :: past)) (k : Kind) (hp : p ∈ past) :
    (Core.interactionEdges (past.map inst) (inst i)).reverse.find?
      (joinsP (node (source k p)) (node (target k i))) =
      ((deps (rfBottleneckP i) past i).reverse.lookup (k, p)).map
        fun t => depEdgeP i ((k, p), t) := by
  rw [← map_depsP hn.older, ← List.map_reverse]
  refine find?_map_lookup fun d hd => ?_
  have hpast := mem_past_of_mem_deps hn.older (List.mem_reverse.mp hd)
  rw [Bool.eq_iff_iff, beq_iff_eq, joinsP, decide_eq_true_eq]
  constructor
  · rintro ⟨hs, ht⟩
    have hk : d.1.1 = k := target_type_inj (stage_injective (congrArg Core.Node.stage ht))
    have hsource := node_inj hn.2 (.of_mem hpast (source_mem _ _)) (.of_mem hp (source_mem _ _)) hs
    refine Prod.ext hk ?_
    rw [← (Deg.mem_stages (source_mem k p)).1, ← hsource]
    exact (Deg.mem_stages (source_mem _ _)).1.symm
  · intro hd
    rw [depEdgeP, hd]
    exact ⟨rfl, rfl⟩

/-- The two analyses read the same edges from the past to `i`. -/
def SameRead (past : List Deg.RiscvInstruction) (i : Deg.RiscvInstruction) : Prop :=
  ∀ u v, Deg.Owned past u → v ∈ Deg.stages i →
    ((Deg.interactionEdges past i).find? (joins u v)).map edge =
      (Core.interactionEdges (past.map inst) (inst i)).reverse.find? (joinsP (node u) (node v))

lemma sameRead_iff (hn : Deg.Numbered (i :: past)) : SameRead past i ↔ SameDeps past i := by
  constructor
  · rintro h ⟨k, p⟩
    by_cases hp : p ∈ past
    · have hread := h (source k p) (target k i) (.of_mem hp (source_mem k p)) (target_mem k i)
      rw [find?_interactionEdges, find?_interactionEdgesP hn k hp, Option.map_map] at hread
      exact hread
    · have hnone (rf : Option Deg.Bottleneck) : (k, p) ∉ (deps rf past i).map Prod.fst := by
        intro hmem
        obtain ⟨d, hd, heq⟩ := List.mem_map.mp hmem
        have hmem := mem_past_of_mem_deps hn.older hd
        rw [heq] at hmem
        exact hp hmem
      rw [lookup_eq_none.mpr (hnone _), lookup_eq_none.mpr (by simpa using hnone _)]
      rfl
  · intro h u v hu hv
    by_cases hex : ∃ k p, p ∈ past ∧ source k p = u ∧ target k i = v
    · obtain ⟨k, p, hp, rfl, rfl⟩ := hex
      rw [find?_interactionEdges, find?_interactionEdgesP hn k hp, Option.map_map]
      exact h (k, p)
    · -- no dependence joins the two vertices
      have hnone : (Deg.interactionEdges past i).find? (joins u v) = none := by
        rw [← map_deps, List.find?_eq_none]
        intro e he hjoins
        obtain ⟨d, hd, rfl⟩ := List.mem_map.mp he
        rw [joins, decide_eq_true_eq] at hjoins
        exact hex ⟨_, _, mem_past_of_mem_deps hn.older hd, hjoins.1, hjoins.2⟩
      rw [hnone, Option.map_none, eq_comm, ← map_depsP hn.older, List.find?_eq_none]
      intro e he hjoins
      obtain ⟨d, hd, rfl⟩ := List.mem_map.mp (List.mem_reverse.mp he)
      have hpast := mem_past_of_mem_deps hn.older hd
      rw [joinsP, decide_eq_true_eq] at hjoins
      refine hex ⟨_, _, hpast, node_inj hn.2 (.of_mem hpast (source_mem _ _)) hu hjoins.1, ?_⟩
      have hown (w : Deg.Vertex) (hw : w ∈ Deg.stages i) : Deg.Owned (i :: past) w :=
        .of_mem List.mem_cons_self hw
      exact node_inj hn (hown _ (target_mem _ _)) (hown v hv) hjoins.2

/-! ### Whole traces -/

/-- The two analyses read the same edges between different instructions of the trace. -/
def SameReads (insts : List Deg.RiscvInstruction) : Prop :=
  ∀ u v, Deg.Owned insts u → Deg.Owned insts v → u.instSeq ≠ v.instSeq →
    ((Deg.traceEdges insts).find? (joins u v)).map edge =
      (Core.traceEdges (insts.map inst)).reverse.find? (joinsP (node u) (node v))

/-- No edge of the list leads from `u` to `v`. -/
lemma find?_joins_none {es : List (Deg.Vertex × Deg.OutgoingEdge)}
    (h : ∀ e ∈ es, e.1.instSeq ≠ u.instSeq ∨ e.2.child.instSeq ≠ v.instSeq) :
    es.find? (joins u v) = none := by
  rw [List.find?_eq_none]
  intro e he hjoins
  rw [joins, decide_eq_true_eq] at hjoins
  obtain ⟨rfl, rfl⟩ := hjoins
  exact (h e he).elim (fun h => h rfl) fun h => h rfl

lemma find?_joinsP_none {es : List Core.Edge}
    (h : ∀ e ∈ es, e.u.seq ≠ u.instSeq ∨ e.v.seq ≠ v.instSeq) :
    es.reverse.find? (joinsP (node u) (node v)) = none := by
  rw [List.find?_eq_none]
  intro e he hjoins
  rw [joinsP, decide_eq_true_eq] at hjoins
  have hcase := h e (List.mem_reverse.mp he)
  rw [hjoins.1, hjoins.2] at hcase
  exact hcase.elim (fun h => h rfl) fun h => h rfl

lemma descending_map (hn : Deg.Numbered insts) : Core.Descending (insts.map inst) := by
  induction insts with
  | nil => exact List.Pairwise.nil
  | cons i past ih =>
    refine List.pairwise_cons.mpr ⟨fun j hj => ?_, ih hn.2⟩
    obtain ⟨p, hp, rfl⟩ := List.mem_map.mp hj
    exact hn.older p hp

/-- The edges of the Python analysis between instructions of the past. -/
lemma seq_of_mem_traceEdgesP (hn : Deg.Numbered (i :: past)) {e : Core.Edge}
    (he : e ∈ Core.traceEdges (past.map inst)) : e.u.seq < i.instSeq ∧ e.v.seq < i.instSeq := by
  obtain ⟨⟨j, hj, hu⟩, j', hj', hv⟩ := Core.owned_traceEdges (descending_map hn.2) he
  obtain ⟨p, hp, rfl⟩ := List.mem_map.mp hj
  obtain ⟨p', hp', rfl⟩ := List.mem_map.mp hj'
  rw [Core.seq_of_mem hu, Core.seq_of_mem hv]
  exact ⟨hn.older p hp, hn.older p' hp'⟩

/-- The numbers of the instructions that the edges of the C++ analysis join. -/
lemma instSeq_of_mem_traceEdges (hn : Deg.Numbered (i :: past))
    {e : Deg.Vertex × Deg.OutgoingEdge} (he : e ∈ Deg.traceEdges past) :
    e.1.instSeq < i.instSeq ∧ e.2.child.instSeq < i.instSeq := by
  obtain ⟨hu, hv⟩ := Deg.owned_traceEdges hn.2 he
  have := hu.instSeq_mem hn.2
  have := hv.instSeq_mem hn.2
  have := hn.1
  omega

lemma instSeq_of_mem_chainEdges {e : Deg.Vertex × Deg.OutgoingEdge}
    (he : e ∈ Deg.chainEdges (Deg.stages i)) :
    e.1.instSeq = i.instSeq ∧ e.2.child.instSeq = i.instSeq := by
  obtain ⟨hu, hv⟩ := Deg.mem_chainEdges he
  exact ⟨(Deg.mem_stages hu).2, (Deg.mem_stages hv).2⟩

lemma child_of_mem_interactionEdges (hn : Deg.Numbered (i :: past))
    {e : Deg.Vertex × Deg.OutgoingEdge} (he : e ∈ Deg.interactionEdges past i) :
    e.2.child.instSeq = i.instSeq :=
  (Deg.mem_stages (Deg.dependence_interaction hn.older e he).ends.2).2

lemma seq_of_mem_modelEdgesP {e : Core.Edge} (he : e ∈ Core.modelEdges (inst i)) :
    e.u.seq = i.instSeq ∧ e.v.seq = i.instSeq := by
  obtain ⟨hu, hv⟩ := Core.ends_mem_modelNodes e he
  exact ⟨Core.seq_of_mem hu, Core.seq_of_mem hv⟩

lemma seq_of_mem_interactionEdgesP (hn : Deg.Numbered (i :: past)) {e : Core.Edge}
    (he : e ∈ Core.interactionEdges (past.map inst) (inst i)) : e.v.seq = i.instSeq := by
  rw [← map_depsP hn.older] at he
  obtain ⟨d, -, rfl⟩ := List.mem_map.mp he
  exact (Deg.mem_stages (target_mem _ _)).2

/-- The edges to the newest instruction are its dependences. -/
lemma find?_cons_new (hn : Deg.Numbered (i :: past)) (hu : u.instSeq < i.instSeq)
    (hv : v.instSeq = i.instSeq) :
    (Deg.traceEdges (i :: past)).find? (joins u v) =
      (Deg.interactionEdges past i).find? (joins u v) ∧
    (Core.traceEdges ((i :: past).map inst)).reverse.find? (joinsP (node u) (node v)) =
      (Core.interactionEdges (past.map inst) (inst i)).reverse.find?
        (joinsP (node u) (node v)) := by
  constructor
  · have hpast : (Deg.traceEdges past).find? (joins u v) = none := by
      refine find?_joins_none fun e he => .inr ?_
      have := instSeq_of_mem_traceEdges hn he
      omega
    have hchain : (Deg.chainEdges (Deg.stages i)).find? (joins u v) = none := by
      refine find?_joins_none fun e he => .inl ?_
      have := instSeq_of_mem_chainEdges he
      omega
    rw [Deg.traceEdges, List.find?_append, List.find?_append, hpast, hchain, Option.none_or,
      Option.none_or]
  · have hpast : (Core.traceEdges (past.map inst)).reverse.find? (joinsP (node u) (node v)) =
        none := by
      refine find?_joinsP_none fun e he => .inr ?_
      have := seq_of_mem_traceEdgesP hn he
      omega
    have hchain : (Core.modelEdges (inst i)).reverse.find? (joinsP (node u) (node v)) = none := by
      refine find?_joinsP_none fun e he => .inl ?_
      have := seq_of_mem_modelEdgesP he
      omega
    rw [List.map_cons, Core.traceEdges, List.reverse_append, List.reverse_append,
      List.find?_append, List.find?_append, hpast, hchain, Option.or_none, Option.or_none]

/-- The newest instruction adds no edges between older ones. -/
lemma find?_cons_old (hn : Deg.Numbered (i :: past)) (hv : v.instSeq < i.instSeq) :
    (Deg.traceEdges (i :: past)).find? (joins u v) = (Deg.traceEdges past).find? (joins u v) ∧
    (Core.traceEdges ((i :: past).map inst)).reverse.find? (joinsP (node u) (node v)) =
      (Core.traceEdges (past.map inst)).reverse.find? (joinsP (node u) (node v)) := by
  constructor
  · have hchain : (Deg.chainEdges (Deg.stages i)).find? (joins u v) = none := by
      refine find?_joins_none fun e he => .inr ?_
      have := instSeq_of_mem_chainEdges he
      omega
    have hcross : (Deg.interactionEdges past i).find? (joins u v) = none := by
      refine find?_joins_none fun e he => .inr ?_
      have := child_of_mem_interactionEdges hn he
      omega
    rw [Deg.traceEdges, List.find?_append, List.find?_append, hchain, hcross, Option.or_none,
      Option.or_none]
  · have hchain : (Core.modelEdges (inst i)).reverse.find? (joinsP (node u) (node v)) = none := by
      refine find?_joinsP_none fun e he => .inr ?_
      have := seq_of_mem_modelEdgesP he
      omega
    have hcross : (Core.interactionEdges (past.map inst) (inst i)).reverse.find?
        (joinsP (node u) (node v)) = none := by
      refine find?_joinsP_none fun e he => .inr ?_
      have := seq_of_mem_interactionEdgesP hn he
      omega
    rw [List.map_cons, Core.traceEdges, List.reverse_append, List.reverse_append,
      List.find?_append, List.find?_append, hchain, hcross, Option.none_or, Option.none_or]

/-- The next instruction adds the edges that lead to it. -/
lemma sameReads_cons (hn : Deg.Numbered (i :: past)) :
    SameReads (i :: past) ↔ SameReads past ∧ SameRead past i := by
  have hlt {w : Deg.Vertex} (hw : Deg.Owned past w) : w.instSeq < i.instSeq := by
    have := hw.instSeq_mem hn.2
    have := hn.1
    omega
  constructor
  · intro h
    refine ⟨fun u v hu hv hne => ?_, fun u v hu hv => ?_⟩
    · have := h u v hu.cons hv.cons hne
      rwa [(find?_cons_old hn (hlt hv)).1, (find?_cons_old hn (hlt hv)).2] at this
    · have hseq := (Deg.mem_stages hv).2
      have := h u v hu.cons (.of_mem List.mem_cons_self hv) (hseq ▸ (hlt hu).ne)
      rwa [(find?_cons_new hn (hlt hu) hseq).1, (find?_cons_new hn (hlt hu) hseq).2] at this
  · rintro ⟨hpast, hi⟩ u v hu hv hne
    rcases List.mem_cons.mp hv.1 with hvi | hvi
    · -- an edge to the newest instruction comes from an older one
      have hv' : v ∈ Deg.stages i := hvi ▸ hv.2
      have hseq := (Deg.mem_stages hv').2
      have hu' : Deg.Owned past u := by
        refine ⟨(List.mem_cons.mp hu.1).resolve_left fun hui => hne ?_, hu.2⟩
        rw [hu.instSeq_eq, hui, hseq]
      rw [(find?_cons_new hn (hlt hu') hseq).1, (find?_cons_new hn (hlt hu') hseq).2]
      exact hi u v hu' hv'
    · have hv' : Deg.Owned past v := ⟨hvi, hv.2⟩
      rw [(find?_cons_old hn (hlt hv')).1, (find?_cons_old hn (hlt hv')).2]
      rcases List.mem_cons.mp hu.1 with hui | hui
      · -- no edge leads from the newest instruction to an older one
        have hseq : u.instSeq = i.instSeq := hui ▸ hu.instSeq_eq
        rw [find?_joins_none, find?_joinsP_none]
        · rfl
        · intro e he
          have := seq_of_mem_traceEdgesP hn he
          omega
        · intro e he
          have := instSeq_of_mem_traceEdges hn he
          omega
      · exact hpast u v ⟨hui, hu.2⟩ hv' hne

/-- A trace is read in the same way exactly if all of its instructions are consistent. -/
lemma sameReads_iff (hn : Deg.Numbered insts) : SameReads insts ↔ AllConsistent insts := by
  induction insts with
  | nil => exact ⟨fun _ => trivial, fun _ u v hu => absurd hu.1 List.not_mem_nil⟩
  | cons i past ih =>
    rw [sameReads_cons hn, ih hn.2, sameRead_iff hn, sameDeps_iff, AllConsistent]

/-! ### The graphs -/

/-- Between any two vertices of different instructions, the edge that `getOutgoingEdge` finds and
the edge that the Python graph holds are the same, or there is none of either. -/
def SameCross (s : Deg.O3Graph) (g : Core.Graph) : Prop :=
  ∀ u v, s.HasVertex u → s.HasVertex v → u.instSeq ≠ v.instSeq →
    ((Deg.getOutgoingEdge u v).run s).1.toOption.map (fun o => edge (u, o)) =
      g.graph.edges.get? ((node u).name, (node v).name)

lemma toOption_getOutgoingEdge (s : Deg.O3Graph) (u v : Deg.Vertex) :
    ((Deg.getOutgoingEdge u v).run s).1.toOption = (s.outgoing u).find? (·.child = v) := by
  have hread : (Deg.readGraph u).run s = (.ok (s.outgoing u), s.touchGraph u) := rfl
  rw [Deg.getOutgoingEdge, Exec.run_bind_ok hread]
  cases (s.outgoing u).find? (·.child = v) <;> rfl

lemma find?_outgoing {s : Deg.O3Graph} (h : Deg.Listed insts s) (hu : Deg.Owned insts u) :
    ((s.outgoing u).find? (·.child = v)).map (fun o => edge (u, o)) =
      ((Deg.traceEdges insts).find? (joins u v)).map edge := by
  rw [h u hu, List.find?_map, List.find?_filter, Option.map_map]
  have hjoins : (fun e : Deg.Vertex × Deg.OutgoingEdge => decide (decide (e.1 = u) = true ∧
      ((fun o : Deg.OutgoingEdge => decide (o.child = v)) ∘ (·.2)) e = true)) = joins u v := by
    funext e
    simp [joins]
  rw [hjoins]
  cases hf : (Deg.traceEdges insts).find? (joins u v) with
  | none   => rfl
  | some e =>
    have hfound := List.find?_some hf
    rw [joins, decide_eq_true_eq] at hfound
    simp [← hfound.1]

/-- Nodes of the trace are told apart by their names. -/
lemma find?_names (hn : Deg.Numbered insts) (hu : Deg.Owned insts u) (hv : Deg.Owned insts v) :
    ((Core.traceEdges (insts.map inst)).reverse.find?
      fun e => e.u.name = (node u).name ∧ e.v.name = (node v).name) =
    (Core.traceEdges (insts.map inst)).reverse.find? (joinsP (node u) (node v)) := by
  have hname {x : Core.Node} {w : Deg.Vertex} (hx : ∃ i ∈ insts.map inst, x ∈ Core.modelNodes i)
      (hw : Deg.Owned insts w) : x.name = (node w).name ↔ x = node w := by
    refine ⟨fun h => ?_, congrArg _⟩
    obtain ⟨j, hj, hx⟩ := hx
    obtain ⟨i, hi, rfl⟩ := List.mem_map.mp hj
    rw [← map_stages] at hx
    obtain ⟨w', hw', rfl⟩ := List.mem_map.mp hx
    obtain ⟨hseq, hstage⟩ := Core.uniqueName_inj h
    rw [Deg.Owned.eq hn (.of_mem hi hw') hw (stage_injective hstage) hseq]
  refine List.find?_congr fun e he => decide_eq_decide.mpr ?_
  obtain ⟨heu, hev⟩ := Core.owned_traceEdges (descending_map hn) (List.mem_reverse.mp he)
  exact and_congr (hname heu hu) (hname hev hv)

/-- After the same trace, the two graphs have the same edges between instructions exactly if all
instructions are consistent. -/
theorem sameCross_iff (trace : List Deg.TraceLine) :
    ∃ s g, (Deg.modelSteps trace.length).run (.init trace) = (.ok (), s) ∧
      (Core.constructGraph (trace.map line)).run .init = (.ok (), g) ∧
      (SameCross s g ↔ AllConsistent (Deg.readAll [] trace)) := by
  obtain ⟨s, hrun, hb, hl⟩ := Deg.listed_trace trace
  obtain ⟨g, hrun', hg⟩ := Core.constructGraph_returns (trace.map line)
  rw [reverse_instructionStream] at hg
  have hn := hb.numbered
  refine ⟨s, g, hrun, hrun', ?_⟩
  rw [← sameReads_iff hn]
  refine forall_congr' fun u => forall_congr' fun v => ?_
  rw [hb.hasVertex_iff, hb.hasVertex_iff]
  refine forall_congr' fun hu => forall_congr' fun hv => forall_congr' fun _ => ?_
  rw [toOption_getOutgoingEdge, find?_outgoing hl hu, hg.edges_eq, Core.get?_edgeDict,
    find?_names hn hu hv]

/-- A floating point addition. -/
def fpAdd : Deg.TraceLine :=
  { Deg.lateLoad with
    inst := "fadd_d fa5, fa4, fa5"
    instType := .floatAdd
    memory := 0
    complete := 9
    completeMemory := 0
    src := [46, 47]
    dst := 47
    lq := -1 }

/-- A floating point multiplication that waits for the register of the addition. -/
def fpMult : Deg.TraceLine :=
  { fpAdd with
    inst := "fmul_d fa5, fa3, fa4"
    instType := .floatMult
    blockFromRf := 6
    rename := 8
    dispatch := 9
    insertReadyList := 9
    issue := 10
    complete := 14
    commitHead := 15
    commit := 15
    src := [45, 46]
    rob := 1
    iq := 1
    fu := 1 }

/-- The Python analysis charges the register conflict of the multiplication to the register file,
and the C++ analysis does not enter an edge. -/
theorem fpMult_disagrees :
    Ordered fpAdd ∧ Ordered fpMult ∧
    (∀ u ∈ ((Deg.modelSteps 2).run (.init [fpAdd, fpMult])).2.graph.keys,
      ∀ o ∈ ((Deg.modelSteps 2).run (.init [fpAdd, fpMult])).2.outgoing u,
        o.child.instSeq = u.instSeq) ∧
    (((Core.constructGraph [line fpAdd, line fpMult]).run .init).2.graph.edges.get?
      ("1-R", "2-R")).map (fun e => (e.delay, e.bottleneck)) = some (4, .fpRF) := by
  decide +kernel

end ArchExplorer.Compare
