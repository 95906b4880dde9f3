import ArchExplorer.Compare.Records
import ArchExplorer.Deg.WeightIsTime

/-!
# The chain of an instruction in the two analyses

Both analyses create the same vertices for a record. Their edges are the same unless the record is
the one of a load: the C++ analysis subtracts the tick `complete` where the Python analysis
subtracts the tick `completeMemory`, and the two disagree about an access that is issued without
delay.
-/

namespace ArchExplorer.Compare

open ArchExplorer.Lib

variable {i : Deg.RiscvInstruction} {past : List Deg.RiscvInstruction} {e : Core.Edge}

/-! ### Vertices -/

lemma cast_toNat_inj {x y : UInt64} : (x.toNat : ℤ) = y.toNat ↔ x = y := by
  rw [Nat.cast_inj, UInt64.toNat_inj]

lemma node_decodeStage : node (Deg.decodeStage i) = Core.nodeDecode (inst i) := rfl

lemma node_renameStage : node (Deg.renameStage i) = Core.nodeRename (inst i) := rfl

lemma node_commitStage : node (Deg.commitStage i) = Core.nodeCommit (inst i) := rfl

lemma dispatch_eq_issue_iff : (inst i).dispatch = (inst i).issue ↔ i.dispatch = i.issue :=
  cast_toNat_inj

lemma memory_eq_completeMemory_iff :
    (inst i).memory = (inst i).completeMemory ↔ i.memory = i.completeMemory := cast_toNat_inj

lemma processCacheCompletion_eq_fetch_iff :
    (inst i).processCacheCompletion = (inst i).fetch ↔ i.processCacheCompletion = i.fetch :=
  cast_toNat_inj

/-- A merged issue is dated by the tick `issue` in one analysis and by `dispatch` in the other. -/
lemma node_di (h : i.dispatch = i.issue) :
    node (Deg.stage i .di (Deg.timingOk_di h)) = Core.nodeDI (inst i) := by
  simp only [node, Deg.stage, Deg.Vertex.timing, ← h]
  rfl

lemma node_issueStage : node (Deg.issueStage i) = Core.issuedNode (inst i) := by
  unfold Deg.issueStage Core.issuedNode
  simp only [dispatch_eq_issue_iff]
  split_ifs with h
  · exact node_di h
  · rfl

lemma isLoad_inst : (inst i).isLoad = i.isLoad := isLoad_line _

lemma isStore_inst : (inst i).isStore = i.isStore := isStore_line _

/-- The two analyses agree when the access and the completion are one stage. -/
lemma merged_iff : (inst i).isStore = true ∨
    (inst i).isLoad = true ∧ (inst i).memory = (inst i).completeMemory ↔ Deg.Merged i := by
  rw [isStore_inst, isLoad_inst, memory_eq_completeMemory_iff, Deg.Merged]

lemma node_completeStage : node (Deg.completeStage i) = Core.completedNode (inst i) := by
  unfold Deg.completeStage Core.completedNode
  simp only [merged_iff]
  simp only [isLoad_inst]
  split_ifs with hm hl
  · rfl
  · simp only [node, Deg.single, Deg.stage, Deg.Vertex.timing, hl]
    rfl
  · simp only [node, Deg.single, Deg.stage, Deg.Vertex.timing, hl]
    rfl

lemma map_fetchStages :
    (Deg.fetchStages i).map node = Core.nodeF1 (inst i) :: Core.fetchNodes (inst i) := by
  unfold Deg.fetchStages Core.fetchNodes
  simp only [processCacheCompletion_eq_fetch_iff]
  split_ifs <;> rfl

lemma map_issueStages : (Deg.dispatchStages i ++ [Deg.issueStage i]).map node =
    Core.issueNodes (inst i) := by
  rw [List.map_append, List.map_singleton, node_issueStage]
  unfold Deg.dispatchStages Core.issueNodes Core.issuedNode
  simp only [dispatch_eq_issue_iff]
  split_ifs <;> rfl

lemma map_executeStages : (Deg.memoryStages i ++ [Deg.completeStage i]).map node =
    Core.executeNodes (inst i) := by
  have hiff : i.isLoad = true ∧ ¬Deg.Merged i ↔ i.isLoad = true ∧ i.memory ≠ i.completeMemory := by
    refine and_congr_right fun hl => ?_
    simp [Deg.Merged, Deg.TraceLine.not_isStore_of_isLoad hl, hl]
  rw [List.map_append, List.map_singleton, node_completeStage, Core.executeNodes_eq]
  unfold Deg.memoryStages Core.accessNodes
  simp only [hiff, isLoad_inst, ne_eq, memory_eq_completeMemory_iff]
  split_ifs <;> rfl

/-- The two analyses create the same vertices, in the same order. -/
lemma map_stages (i : Deg.RiscvInstruction) :
    (Deg.stages i).map node = Core.modelNodes (inst i) := by
  have hissue := map_issueStages (i := i)
  have hexecute := map_executeStages (i := i)
  simp only [List.map_append, List.map_singleton] at hissue hexecute
  simp only [Deg.stages, Deg.innerStages, Core.modelNodes, List.map_append, List.map_cons,
    List.map_nil, map_fetchStages, node_decodeStage, node_renameStage, node_commitStage,
    ← hissue, ← hexecute, List.append_assoc, List.cons_append, List.nil_append]

/-! ### Edges -/

/-- The ticks of the stages of a record do not decrease. Only memory instructions have an access,
and only loads have a completion of the access. -/
structure Ordered (a : Deg.TraceLine) : Prop where
  front : [a.fetchCacheLine, a.processCacheCompletion, a.fetch, a.decode, a.rename, a.dispatch,
    a.issue].IsChain (· ≤ ·)
  complete : a.issue ≤ a.complete ∧ a.complete ≤ a.commit
  memory : a.isMem = true → a.issue ≤ a.memory ∧ a.memory ≤ a.commit
  completeMemory : a.isLoad = true → a.memory ≤ a.completeMemory ∧ a.completeMemory ≤ a.commit

instance (a : Deg.TraceLine) : Decidable (Ordered a) :=
  decidable_of_iff ([a.fetchCacheLine, a.processCacheCompletion, a.fetch, a.decode, a.rename,
      a.dispatch, a.issue].IsChain (· ≤ ·) ∧ (a.issue ≤ a.complete ∧ a.complete ≤ a.commit) ∧
      (a.isMem = true → a.issue ≤ a.memory ∧ a.memory ≤ a.commit) ∧
      (a.isLoad = true → a.memory ≤ a.completeMemory ∧ a.completeMemory ≤ a.commit))
    ⟨fun ⟨h₁, h₂, h₃, h₄⟩ => ⟨h₁, h₂, h₃, h₄⟩, fun ⟨h₁, h₂, h₃, h₄⟩ => ⟨h₁, h₂, h₃, h₄⟩⟩

/-- Two chains that meet in a vertex. -/
lemma chainEdges_join (l : List Deg.Vertex) (v : Deg.Vertex) (r : List Deg.Vertex) :
    Deg.chainEdges (l ++ v :: r) = Deg.chainEdges (l ++ [v]) ++ Deg.chainEdges (v :: r) := by
  match l with
  | []          => rfl
  | [u]         => rfl
  | u :: w :: l =>
    exact congrArg _ (chainEdges_join (w :: l) v r)

/-- The edge between two stages, provided that the delay does not wrap around. -/
lemma edge_stageEdge {u v : Deg.Vertex} {early late : UInt64}
    (hw : Deg.stageWeight u.inst u.type v.type = Deg.delay early late) (h : early ≤ late) :
    edge (u, Deg.stageEdge u v) = ⟨node u, node v, (late.toNat : ℤ) - early.toNat, 0,
      btnk (Deg.stageBottleneck u.type (late.toNat - early.toNat))⟩ := by
  simp only [edge, Deg.stageEdge, hw, delay_eq_sub h]

lemma map_chainEdges_fetch (h : Ordered i.toTraceLine) :
    (Deg.chainEdges (Deg.fetchStages i ++ [Deg.decodeStage i])).map edge =
      Core.fetchEdges (inst i) := by
  obtain ⟨h₁, h₂, h₃, -⟩ : i.fetchCacheLine ≤ i.processCacheCompletion ∧
      i.processCacheCompletion ≤ i.fetch ∧ i.fetch ≤ i.decode ∧ _ := by simpa using h.front
  unfold Deg.fetchStages Core.fetchEdges
  simp only [processCacheCompletion_eq_fetch_iff]
  split_ifs
  · simp only [List.cons_append, List.nil_append, Deg.chainEdges, List.map_cons, List.map_nil]
    rw [edge_stageEdge rfl h₁, edge_stageEdge rfl h₃]
    simp only [Deg.single, Deg.stage, Deg.stageBottleneck, icacheBottleneck_eq]
    rfl
  · simp only [List.cons_append, List.nil_append, Deg.chainEdges, List.map_cons, List.map_nil]
    rw [edge_stageEdge rfl h₁, edge_stageEdge rfl h₂, edge_stageEdge rfl h₃]
    simp only [Deg.single, Deg.stage, Deg.stageBottleneck, icacheBottleneck_eq]
    rfl

lemma map_chainEdges_rename (h : Ordered i.toTraceLine) :
    (Deg.chainEdges [Deg.decodeStage i, Deg.renameStage i]).map edge =
      [⟨Core.nodeDecode (inst i), Core.nodeRename (inst i), (inst i).rename - (inst i).decode, 0,
        .base⟩] := by
  obtain ⟨-, -, -, h₁, -⟩ : _ ∧ _ ∧ _ ∧ i.decode ≤ i.rename ∧ _ := by simpa using h.front
  simp only [Deg.chainEdges, List.map_cons, List.map_nil]
  rw [edge_stageEdge rfl h₁]
  rfl

lemma map_chainEdges_issue (h : Ordered i.toTraceLine) :
    (Deg.chainEdges (Deg.renameStage i :: (Deg.dispatchStages i ++ [Deg.issueStage i]))).map edge =
      Core.issueEdges (inst i) := by
  obtain ⟨-, -, -, -, h₁, h₂⟩ : _ ∧ _ ∧ _ ∧ _ ∧ i.rename ≤ i.dispatch ∧ i.dispatch ≤ i.issue := by
    simpa using h.front
  unfold Deg.dispatchStages Deg.issueStage Core.issueEdges
  simp only [dispatch_eq_issue_iff]
  split_ifs with hd
  · simp only [List.nil_append, Deg.chainEdges, List.map_cons, List.map_nil]
    rw [edge_stageEdge rfl (UInt64.le_trans h₁ h₂), node_di hd]
    rfl
  · simp only [List.cons_append, List.nil_append, Deg.chainEdges, List.map_cons, List.map_nil]
    rw [edge_stageEdge rfl h₁, edge_stageEdge rfl h₂]
    rfl

/-- The edges of the Python analysis from the issue to the completion, each once. -/
def completionEdges (inst : Core.RiscvInstruction) : List Core.Edge :=
  if inst.isLoad = true ∧ inst.memory ≠ inst.completeMemory then
    [⟨Core.issuedNode inst, Core.nodeMemory inst, inst.memory - inst.issue, 0, .base⟩,
      Core.edgeMemoryComplete inst]
  else if inst.isLoad = true ∧ inst.dispatch = inst.issue then
    [⟨Core.issuedNode inst, Core.completedNode inst, inst.complete - inst.dispatch, 0,
      Core.dcacheBottleneck (inst.complete - inst.dispatch)⟩]
  else if inst.isLoad then
    [⟨Core.issuedNode inst, Core.completedNode inst, inst.completeMemory - inst.issue, 0, .base⟩]
  else if inst.isStore = true ∧ inst.dispatch = inst.issue then
    [⟨Core.issuedNode inst, Core.completedNode inst, inst.memory - inst.dispatch, 0, .base⟩]
  else
    [⟨Core.issuedNode inst, Core.completedNode inst, inst.complete - inst.issue, 0, .base⟩]

/-- The edge from dispatch to issue is the only one that is added twice. -/
lemma mem_executeEdges {inst : Core.RiscvInstruction} :
    e ∈ Core.issueEdges inst ++ Core.executeEdges inst ↔
      e ∈ Core.issueEdges inst ++ completionEdges inst := by
  unfold Core.executeEdges Core.loadEdges completionEdges
  rw [inst.isMem_eq]
  cases hload : inst.isLoad with
  | true =>
    have hstore := Core.TraceLine.not_isStore_of_isLoad hload
    by_cases hi : inst.dispatch = inst.issue <;>
      by_cases hm : inst.memory = inst.completeMemory <;>
      simp [hstore, hi, hm, Core.issueEdges, Core.issuedNode, Core.completedNode, hload]
  | false =>
    cases hstore : inst.isStore <;> by_cases hi : inst.dispatch = inst.issue <;>
      simp [hi, Core.issueEdges, Core.issuedNode, Core.completedNode, hload, hstore]

/-- The edges of the Python analysis in the order of the pipeline, each once. -/
def chainEdges (inst : Core.RiscvInstruction) : List Core.Edge :=
  Core.fetchEdges inst ++
    [⟨Core.nodeDecode inst, Core.nodeRename inst, inst.rename - inst.decode, 0, .base⟩] ++
    (Core.issueEdges inst ++ completionEdges inst) ++ [Core.commitEdge inst]

lemma mem_modelEdges {inst : Core.RiscvInstruction} :
    e ∈ Core.modelEdges inst ↔ e ∈ chainEdges inst := by
  have h : e ∈ Core.issueEdges inst ++ Core.executeEdges inst ↔ _ := mem_executeEdges
  simp only [Core.modelEdges, chainEdges, List.append_assoc] at h ⊢
  simp only [List.mem_append] at h ⊢
  tauto

/-- The condition under which a record has the same edges in both analyses. -/
def SameTicks (a : Deg.TraceLine) : Prop :=
  a.isLoad = true → a.complete = a.completeMemory ∧
    (a.dispatch = a.issue → a.memory = a.completeMemory → a.memory.toNat = a.dispatch.toNat + 2)

instance (a : Deg.TraceLine) : Decidable (SameTicks a) := by unfold SameTicks; infer_instance

/-- The edge to the commit. The C++ analysis starts it at the tick `complete`. -/
lemma edge_commit (h : Ordered i.toTraceLine) :
    edge (Deg.completeStage i, Deg.stageEdge (Deg.completeStage i) (Deg.commitStage i)) =
      ⟨Core.completedNode (inst i), Core.nodeCommit (inst i), (inst i).commit - (inst i).complete,
        0, .base⟩ := by
  have hw : Deg.stageWeight (Deg.completeStage i).inst (Deg.completeStage i).type
      (Deg.commitStage i).type = Deg.delay i.complete i.commit := by
    unfold Deg.completeStage
    split_ifs <;> rfl
  have hb (w : ℤ) : btnk (Deg.stageBottleneck (Deg.completeStage i).type w) = .base := by
    unfold Deg.completeStage
    split_ifs <;> rfl
  rw [edge_stageEdge hw h.complete.2, hb, node_completeStage]
  rfl

/-- The Python analysis starts the edge to the commit at the completion of the access. -/
lemma commitEdge_eq (inst : Core.RiscvInstruction) :
    Core.commitEdge inst = ⟨Core.completedNode inst, Core.nodeCommit inst, inst.commit -
      (if inst.isLoad = true ∧ inst.memory ≠ inst.completeMemory then inst.completeMemory
        else inst.complete), 0, .base⟩ := by
  unfold Core.commitEdge Core.completedNode
  cases hload : inst.isLoad with
  | true  =>
    have hstore := Core.TraceLine.not_isStore_of_isLoad hload
    by_cases hm : inst.memory = inst.completeMemory <;> simp [hstore, hm]
  | false => cases inst.isStore <;> simp

/-- The edges of a load that completes after its access. -/
lemma map_chainEdges_access (h : Ordered i.toTraceLine) (hl : i.isLoad = true)
    (hm : i.memory ≠ i.completeMemory) :
    (Deg.chainEdges (Deg.issueStage i :: (Deg.memoryStages i ++
      [Deg.completeStage i, Deg.commitStage i]))).map edge =
      completionEdges (inst i) ++
        [⟨Core.completedNode (inst i), Core.nodeCommit (inst i),
          (inst i).commit - (inst i).complete, 0, .base⟩] := by
  have hnot : ¬Deg.Merged i := by
    simp [Deg.Merged, Deg.TraceLine.not_isStore_of_isLoad hl, hm]
  have hmem : i.issue ≤ i.memory := (h.memory (by simp [Deg.TraceLine.isMem_eq, hl])).1
  have hw : Deg.stageWeight (Deg.issueStage i).inst (Deg.issueStage i).type .m =
      Deg.delay i.issue i.memory := by
    unfold Deg.issueStage
    split_ifs <;> rfl
  have hb (w : ℤ) : btnk (Deg.stageBottleneck (Deg.issueStage i).type w) = .base := by
    unfold Deg.issueStage
    split_ifs <;> rfl
  have hload : (inst i).isLoad = true ∧ (inst i).memory ≠ (inst i).completeMemory :=
    ⟨isLoad_inst.trans hl, fun heq => hm (memory_eq_completeMemory_iff.mp heq)⟩
  have hcomplete : Core.completedNode (inst i) = Core.nodeLoadComplete (inst i) := by
    rw [Core.completedNode, if_neg fun hmp => hnot (merged_iff.mp hmp), if_pos hload.1]
  rw [Deg.memoryStages, if_pos ⟨hl, hnot⟩, completionEdges, if_pos hload]
  simp only [List.cons_append, List.nil_append, Deg.chainEdges, List.map_cons, List.map_nil]
  rw [edge_commit h, edge_stageEdge hw hmem, hb, node_issueStage,
    edge_stageEdge rfl (h.completeMemory hl).1, node_completeStage, hcomplete]
  simp only [Deg.single, Deg.stage, Deg.stageBottleneck, dcacheBottleneck_eq,
    Core.edgeMemoryComplete]
  rfl

/-- The edges of any other instruction. -/
lemma map_chainEdges_direct (h : Ordered i.toTraceLine)
    (hm : ¬(i.isLoad = true ∧ i.memory ≠ i.completeMemory)) :
    (Deg.chainEdges (Deg.issueStage i :: (Deg.memoryStages i ++
      [Deg.completeStage i, Deg.commitStage i]))).map edge =
      [⟨Core.issuedNode (inst i), Core.completedNode (inst i),
          if i.isMem = true ∧ i.dispatch = i.issue then (inst i).memory - (inst i).dispatch
          else (inst i).complete - (inst i).issue, 0, .base⟩,
        ⟨Core.completedNode (inst i), Core.nodeCommit (inst i),
          (inst i).commit - (inst i).complete, 0, .base⟩] := by
  have hmerged : i.isMem = true ↔ Deg.Merged i := by
    rw [Deg.TraceLine.isMem_eq, Bool.or_eq_true, Deg.Merged, or_comm]
    refine or_congr_right ⟨fun hl => ⟨hl, ?_⟩, And.left⟩
    by_contra hne
    exact hm ⟨hl, hne⟩
  have hnone : Deg.memoryStages i = [] := by
    refine if_neg fun hmem => hmem.2 (hmerged.mp ?_)
    rw [Deg.TraceLine.isMem_eq, hmem.1, Bool.true_or]
  have hb (w : ℤ) : btnk (Deg.stageBottleneck (Deg.issueStage i).type w) = .base := by
    unfold Deg.issueStage
    split_ifs <;> rfl
  rw [hnone]
  simp only [List.nil_append, Deg.chainEdges, List.map_cons, List.map_nil]
  rw [edge_commit h]
  split_ifs with hdi
  · have hw : Deg.stageWeight (Deg.issueStage i).inst (Deg.issueStage i).type
        (Deg.completeStage i).type = Deg.delay i.dispatch i.memory := by
      simp only [Deg.issueStage, dif_pos hdi.2, Deg.completeStage, dif_pos (hmerged.mp hdi.1)]
      rfl
    rw [edge_stageEdge hw (hdi.2 ▸ (h.memory hdi.1).1), hb, node_issueStage, node_completeStage]
    rfl
  · have hw : Deg.stageWeight (Deg.issueStage i).inst (Deg.issueStage i).type
        (Deg.completeStage i).type = Deg.delay i.issue i.complete := by
      unfold Deg.issueStage Deg.completeStage
      split_ifs with hd hmp
      · exact absurd ⟨hmerged.mpr hmp, hd⟩ hdi
      · rfl
      · rfl
      · rfl
    rw [edge_stageEdge hw h.complete.1, hb, node_issueStage, node_completeStage]
    rfl

lemma dcacheBottleneck_eq_base_iff {w : ℤ} : Core.dcacheBottleneck w = .base ↔ w = 2 := by
  unfold Core.dcacheBottleneck Core.dcacheHitDelay
  split_ifs with h <;> simp [h]

/-- The edges from the issue to the commit. -/
lemma map_chainEdges_execute_iff (h : Ordered i.toTraceLine) :
    (Deg.chainEdges (Deg.issueStage i :: (Deg.memoryStages i ++
      [Deg.completeStage i, Deg.commitStage i]))).map edge =
        completionEdges (inst i) ++ [Core.commitEdge (inst i)] ↔ SameTicks i.toTraceLine := by
  by_cases hm : i.isLoad = true ∧ i.memory ≠ i.completeMemory
  · have hm' : (inst i).isLoad = true ∧ (inst i).memory ≠ (inst i).completeMemory :=
      ⟨isLoad_inst.trans hm.1, fun heq => hm.2 (memory_eq_completeMemory_iff.mp heq)⟩
    rw [map_chainEdges_access h hm.1 hm.2, commitEdge_eq, if_pos hm', List.append_cancel_left_eq]
    have hticks : (inst i).complete = (inst i).completeMemory ↔ i.complete = i.completeMemory :=
      cast_toNat_inj
    simp [SameTicks, hm.1, hm.2, hticks]
  · have hm' : ¬((inst i).isLoad = true ∧ (inst i).memory ≠ (inst i).completeMemory) := by
      rwa [isLoad_inst, ne_eq, memory_eq_completeMemory_iff]
    rw [map_chainEdges_direct h hm, commitEdge_eq, if_neg hm', completionEdges, if_neg hm']
    simp only [dispatch_eq_issue_iff, isLoad_inst, isStore_inst, Deg.TraceLine.isMem_eq]
    by_cases hl : i.isLoad = true
    · have hmemory : i.memory = i.completeMemory := by
        by_contra hne
        exact hm ⟨hl, hne⟩
      by_cases hd : i.dispatch = i.issue
      · simp only [hl, hd, SameTicks, hmemory, Bool.true_or, and_self, if_true, true_implies,
          List.cons_append, List.nil_append, List.cons.injEq, and_true, true_and,
          Core.Edge.mk.injEq]
        have hweight : (inst i).memory - (inst i).dispatch = (inst i).complete - (inst i).dispatch ↔
            i.complete = i.completeMemory := by
          rw [sub_left_inj, eq_comm, ← hmemory]
          exact cast_toNat_inj
        rw [hweight]
        refine and_congr_right fun hc => ?_
        rw [eq_comm, dcacheBottleneck_eq_base_iff, ← hc, ← hd]
        change (i.complete.toNat : ℤ) - i.dispatch.toNat = 2 ↔ _
        omega
      · simp only [hl, hd, SameTicks, hmemory, Bool.true_or, and_false, if_true, if_false,
          true_implies, false_implies, List.cons_append, List.nil_append, List.cons.injEq, and_true,
          true_and, Core.Edge.mk.injEq, sub_left_inj]
        exact cast_toNat_inj
    · -- the two analyses do the same for stores and for all instructions without an access
      cases hst : i.isStore <;> by_cases hd : i.dispatch = i.issue <;> simp [hl, hd, SameTicks]

/-- The chain of an instruction consists of four chains that meet in the decoding, the renaming and
the issue. -/
lemma chainEdges_stages : Deg.chainEdges (Deg.stages i) =
    Deg.chainEdges (Deg.fetchStages i ++ [Deg.decodeStage i]) ++
      (Deg.chainEdges [Deg.decodeStage i, Deg.renameStage i] ++
      (Deg.chainEdges (Deg.renameStage i :: (Deg.dispatchStages i ++ [Deg.issueStage i])) ++
      Deg.chainEdges (Deg.issueStage i :: (Deg.memoryStages i ++
        [Deg.completeStage i, Deg.commitStage i])))) := by
  have hissue := chainEdges_join (Deg.renameStage i :: Deg.dispatchStages i) (Deg.issueStage i)
    (Deg.memoryStages i ++ [Deg.completeStage i, Deg.commitStage i])
  have hrename := chainEdges_join [Deg.decodeStage i] (Deg.renameStage i)
    (Deg.dispatchStages i ++ Deg.issueStage i :: (Deg.memoryStages i ++
      [Deg.completeStage i, Deg.commitStage i]))
  simp only [List.cons_append, List.nil_append] at hissue hrename
  rw [← hissue, ← hrename, ← chainEdges_join]
  simp only [Deg.stages, Deg.innerStages, List.append_assoc, List.cons_append, List.nil_append]

/-- The two analyses enter the same edges up to the issue. -/
lemma map_chainEdges_stages (h : Ordered i.toTraceLine) :
    (Deg.chainEdges (Deg.stages i)).map edge =
      Core.fetchEdges (inst i) ++
        [⟨Core.nodeDecode (inst i), Core.nodeRename (inst i), (inst i).rename - (inst i).decode, 0,
          .base⟩] ++ Core.issueEdges (inst i) ++
        (Deg.chainEdges (Deg.issueStage i :: (Deg.memoryStages i ++
          [Deg.completeStage i, Deg.commitStage i]))).map edge := by
  simp only [chainEdges_stages, List.map_append, map_chainEdges_fetch h, map_chainEdges_rename h,
    map_chainEdges_issue h, List.append_assoc]

/-- The chains of the two analyses as lists of edges. -/
lemma map_chainEdges_iff (h : Ordered i.toTraceLine) :
    (Deg.chainEdges (Deg.stages i)).map edge = chainEdges (inst i) ↔ SameTicks i.toTraceLine := by
  rw [map_chainEdges_stages h, ← map_chainEdges_execute_iff h]
  simp only [chainEdges, List.append_assoc, List.append_cancel_left_eq]

/-! ### Sets of edges -/

/-- Lists whose elements have the same images in the same order are equal as soon as the elements of
one are elements of the other. -/
lemma eq_of_map_eq {α β : Type} {f : α → β} {l l' : List α} (hmap : l.map f = l'.map f)
    (hnodup : (l.map f).Nodup) (h : ∀ a ∈ l, a ∈ l') : l = l' := by
  induction l generalizing l' with
  | nil => exact (List.map_eq_nil_iff.mp hmap.symm).symm
  | cons a l ih =>
    cases l' with
    | nil => simp at hmap
    | cons a' l' =>
      obtain ⟨-, hl⟩ := List.cons.inj hmap
      obtain ⟨hnot, hnodup⟩ := List.nodup_cons.mp hnodup
      -- no other element has the image of `a`
      obtain rfl : a = a' := by
        refine (List.mem_cons.mp (h a List.mem_cons_self)).resolve_right fun hmem => hnot ?_
        rw [hl]
        exact List.mem_map_of_mem hmem
      rw [ih hl hnodup]
      intro x hx
      rcases List.mem_cons.mp (h x (List.mem_cons_of_mem _ hx)) with rfl | hx'
      · exact absurd (List.mem_map_of_mem hx) hnot
      · exact hx'

/-- The sources of the edges are the nodes but the last. -/
lemma map_u_chainEdges (l : List Deg.Vertex) :
    ((Deg.chainEdges l).map edge).map (·.u) = (l.map node).dropLast := by
  match l with
  | []          => rfl
  | [_]         => rfl
  | u :: v :: l => exact congrArg (node u :: ·) (map_u_chainEdges (v :: l))

lemma map_u_completionEdges {inst : Core.RiscvInstruction}
    (h : ¬(inst.isLoad = true ∧ inst.memory ≠ inst.completeMemory)) :
    (completionEdges inst).map (·.u) = [Core.issuedNode inst] := by
  unfold completionEdges
  split_ifs <;> rfl

/-- The edges of the two chains have the same sources. -/
lemma map_u_eq (h : Ordered i.toTraceLine) :
    ((Deg.chainEdges (Deg.stages i)).map edge).map (·.u) = (chainEdges (inst i)).map (·.u) := by
  have hexecute : ((Deg.chainEdges (Deg.issueStage i :: (Deg.memoryStages i ++
      [Deg.completeStage i, Deg.commitStage i]))).map edge).map (·.u) =
      (completionEdges (inst i) ++ [Core.commitEdge (inst i)]).map (·.u) := by
    by_cases hm : i.isLoad = true ∧ i.memory ≠ i.completeMemory
    · rw [map_chainEdges_access h hm.1 hm.2, commitEdge_eq, List.map_append, List.map_append]
      rfl
    · have hm' : ¬((inst i).isLoad = true ∧ (inst i).memory ≠ (inst i).completeMemory) := by
        rwa [isLoad_inst, ne_eq, memory_eq_completeMemory_iff]
      rw [map_chainEdges_direct h hm, List.map_append, map_u_completionEdges hm', commitEdge_eq]
      rfl
  rw [map_chainEdges_stages h, chainEdges, List.map_append, hexecute]
  simp only [List.map_append, List.append_assoc]

lemma nodup_map_u : (((Deg.chainEdges (Deg.stages i)).map edge).map (·.u)).Nodup := by
  have hnodup : ((Deg.stages i).map node).Nodup := by
    rw [map_stages]
    exact (Core.nodup_names (inst i)).of_map
  rw [map_u_chainEdges]
  exact hnodup.sublist (List.dropLast_sublist _)

/-- The two analyses enter the same edges exactly under `SameTicks`. -/
lemma sameEdges_iff (h : Ordered i.toTraceLine) :
    (∀ e, e ∈ Core.modelEdges (inst i) ↔ e ∈ (Deg.chainEdges (Deg.stages i)).map edge) ↔
      SameTicks i.toTraceLine := by
  rw [← map_chainEdges_iff h]
  refine ⟨fun hmem => ?_, fun heq e => by rw [heq, mem_modelEdges]⟩
  exact eq_of_map_eq (map_u_eq h) nodup_map_u fun e he => mem_modelEdges.mp ((hmem e).mpr he)

/-! ### The graphs -/

/-- The graphs hold the same chain for the instruction number `n`. -/
structure SameChain (n : ℕ) (s : Deg.O3Graph) (g : Core.Graph) : Prop where
  nodes : ∀ x, (∃ name, g.graph.nodes.get? name = some (some x)) ∧ x.seq = n ↔
    ∃ v, s.HasVertex v ∧ v.instSeq = n ∧ node v = x
  edges : ∀ e, (∃ k, g.graph.edges.get? k = some e) ∧ e.u.seq = n ↔
    ∃ u o, s.HasEdge u o ∧ u.instSeq = n ∧ edge (u, o) = e

/-- An edge of the chain is determined by the name of its source. -/
lemma modelEdges_inj (h : Ordered i.toTraceLine) {e e' : Core.Edge}
    (he : e ∈ Core.modelEdges (inst i)) (he' : e' ∈ Core.modelEdges (inst i))
    (hname : e.u.name = e'.u.name) : e = e' := by
  have hu : e.u = e'.u := List.inj_on_of_nodup_map (Core.nodup_names (inst i))
    (Core.ends_mem_modelNodes e he).1 (Core.ends_mem_modelNodes e' he').1 hname
  have hnodup : ((chainEdges (inst i)).map (·.u)).Nodup := by
    rw [← map_u_eq h]
    exact nodup_map_u
  exact List.inj_on_of_nodup_map hnodup (mem_modelEdges.mp he) (mem_modelEdges.mp he') hu

/-- The edges of the Python graph that leave the newest instruction. -/
lemma get?_chained_iff {g : Core.Graph} (hg : Core.Chained (past.map inst) (inst i) g)
    (hd : Core.Descending (inst i :: past.map inst)) (h : Ordered i.toTraceLine) :
    (∃ k, g.graph.edges.get? k = some e) ∧ e.u.seq = i.instSeq ↔
      e ∈ Core.modelEdges (inst i) := by
  obtain ⟨ho, hd⟩ := List.pairwise_cons.mp hd
  -- the edges of older instructions leave older nodes
  have hcase (e : Core.Edge) (he : e ∈ Core.traceEdges (past.map inst) ++ Core.modelEdges (inst i))
      (hseq : e.u.seq = i.instSeq) : e ∈ Core.modelEdges (inst i) := by
    refine (List.mem_append.mp he).resolve_left fun he => ?_
    obtain ⟨⟨j, hj, hu⟩, -⟩ := Core.owned_traceEdges hd he
    have := ho j hj
    rw [← Core.seq_of_mem hu, hseq] at this
    exact absurd this (lt_irrefl _)
  rw [hg.edges_eq]
  constructor
  · rintro ⟨⟨k, hk⟩, hseq⟩
    exact hcase e (Core.mem_of_edgeDict hk).1 hseq
  · intro he
    have hseq : e.u.seq = i.instSeq := Core.seq_of_mem (Core.ends_mem_modelNodes e he).1
    obtain ⟨e', he'⟩ := Dict.mem_keys_iff.mp
      (Core.mem_keys_edgeDict (List.mem_append_right (Core.traceEdges (past.map inst)) he))
    obtain ⟨hmem, hkey⟩ := Core.mem_of_edgeDict he'
    obtain ⟨hu, -⟩ := Prod.mk.inj hkey
    have hseq' : e'.u.seq = i.instSeq := by
      rw [← hseq]
      exact (Core.uniqueName_inj hu).1.symm
    rw [modelEdges_inj h he (hcase e' hmem hseq') hu]
    exact ⟨⟨_, he'⟩, hseq'⟩

/-- Both analyses have the same nodes and edges for the newest instruction exactly if the lists of
its edges have the same elements. -/
lemma sameChain_iff_of_chained {V : Prop} {rest : List Deg.TraceLine} {s : Deg.O3Graph}
    {g : Core.Graph} (hb : Deg.Built V (i :: past) past rest s)
    (hl : Deg.Lists (i :: past) (Deg.traceEdges past ++ Deg.chainEdges (Deg.stages i)) s)
    (hg : Core.Chained (past.map inst) (inst i) g)
    (hd : Core.Descending (inst i :: past.map inst)) (h : Ordered i.toTraceLine) :
    SameChain i.instSeq s g ↔
      ∀ e, e ∈ Core.modelEdges (inst i) ↔ e ∈ (Deg.chainEdges (Deg.stages i)).map edge := by
  have hn := hb.numbered
  -- the newest instruction is the only one with its number
  have hmine (v : Deg.Vertex) (hv : Deg.Owned (i :: past) v) (hseq : v.instSeq = i.instSeq) :
      v ∈ Deg.stages i := by
    have hinst : v.inst = i := hn.eq_of_instSeq hv.1 List.mem_cons_self (hv.instSeq_eq ▸ hseq)
    exact hinst ▸ hv.2
  have hnodes (x : Core.Node) : (∃ name, g.graph.nodes.get? name = some (some x)) ∧
      x.seq = i.instSeq ↔ ∃ v, s.HasVertex v ∧ v.instSeq = i.instSeq ∧ node v = x := by
    constructor
    · rintro ⟨⟨name, hx⟩, hseq⟩
      obtain ⟨j, hj, n, hnj, -, heq⟩ := hg.located.owned _ _ hx
      obtain rfl : x = n := by simpa using heq
      obtain rfl : j = inst i :=
        hg.located.unique j hj (inst i) List.mem_cons_self ((Core.seq_of_mem hnj).symm.trans hseq)
      rw [← map_stages] at hnj
      obtain ⟨v, hv, rfl⟩ := List.mem_map.mp hnj
      exact ⟨v, hb.hasVertex_iff.mpr (.of_mem List.mem_cons_self hv), hseq, rfl⟩
    · rintro ⟨v, hv, hseq, rfl⟩
      have hmem : node v ∈ Core.modelNodes (inst i) := by
        rw [← map_stages]
        exact List.mem_map_of_mem (hmine v (hb.hasVertex_iff.mp hv) hseq)
      exact ⟨⟨_, hg.located.found (inst i) List.mem_cons_self _ hmem⟩, hseq⟩
  have howned : ∀ e ∈ Deg.traceEdges past ++ Deg.chainEdges (Deg.stages i),
      Deg.Owned (i :: past) e.1 := by
    intro e he
    rcases List.mem_append.mp he with he | he
    · exact (Deg.owned_traceEdges hn.2 he).1.cons
    · exact .of_mem List.mem_cons_self (Deg.mem_chainEdges he).1
  have hedges (e : Core.Edge) : (∃ u o, s.HasEdge u o ∧ u.instSeq = i.instSeq ∧ edge (u, o) = e) ↔
      e ∈ (Deg.chainEdges (Deg.stages i)).map edge := by
    simp only [hl.hasEdge_iff hb howned, List.mem_map, Prod.exists]
    refine exists_congr fun u => exists_congr fun o => ?_
    constructor
    · rintro ⟨he, hseq, rfl⟩
      refine ⟨(List.mem_append.mp he).resolve_left fun he => ?_, rfl⟩
      have hmem := (Deg.owned_traceEdges hn.2 he).1.instSeq_mem hn.2
      have hnew := hn.1
      rw [hseq] at hmem
      omega
    · rintro ⟨he, rfl⟩
      exact ⟨List.mem_append_right _ he, (Deg.mem_stages (Deg.mem_chainEdges he).1).2, rfl⟩
  constructor
  · intro hsame e
    rw [← get?_chained_iff hg hd h, hsame.edges, hedges]
  · intro hsame
    exact ⟨hnodes, fun e => by rw [get?_chained_iff hg hd h, hsame, hedges]⟩

/-- After any earlier lines of the trace, the two analyses create the same chain for a record with
non-decreasing ticks exactly under `SameTicks`. -/
theorem sameChain_iff (trace : List Deg.TraceLine) (a : Deg.TraceLine) (h : Ordered a) :
    ∃ s₀ s₁ s g₀ g,
      (Deg.modelSteps trace.length).run (.init (trace ++ [a])) = (.ok (), s₀) ∧
      Deg.nextInst.run s₀ = (.ok (some ⟨a, trace.length + 1⟩), s₁) ∧
      (Deg.model ⟨a, trace.length + 1⟩).run s₁ = (.ok (), s) ∧
      (Core.constructGraph (trace.map line)).run .init = (.ok (), g₀) ∧
      (Core.model ⟨line a, trace.length + 1⟩).run g₀ = (.ok (), g) ∧
      (SameChain (trace.length + 1) s g ↔ SameTicks a) := by
  obtain ⟨s₀, hrun, hb, hl⟩ := Deg.listed_append trace [a]
  obtain ⟨g₀, hrun', hg₀⟩ := Core.constructGraph_returns (trace.map line)
  have hlength : (Deg.readAll [] trace).length = trace.length := by
    simpa using Deg.length_readAll [] trace
  have hi : (⟨a, trace.length + 1⟩ : Deg.RiscvInstruction).instSeq =
      (Deg.readAll [] trace).length + 1 := by rw [hlength]
  rw [reverse_instructionStream] at hg₀
  have hd : Core.Descending (inst ⟨a, trace.length + 1⟩ :: (Deg.readAll [] trace).map inst) := by
    refine List.pairwise_cons.mpr ⟨?_, ?_⟩
    · intro j hj
      obtain ⟨k, hk, rfl⟩ := List.mem_map.mp hj
      have := hb.numbered.instSeq_mem hk
      change k.instSeq < trace.length + 1
      omega
    · rw [← reverse_instructionStream]
      exact Core.descending_stream _
  obtain ⟨g, hmodel, hg⟩ := hg₀.chained (List.pairwise_cons.mp hd).1
  refine ⟨s₀, { s₀ with instStream := ⟨[], (Deg.readAll [] trace).length + 1⟩ }, _, g₀, g, hrun,
    ?_, Deg.model_eq hi.symm, hrun', hmodel, ?_⟩
  · rw [Deg.nextInst_run hb, hlength]
  · rw [← sameEdges_iff (i := ⟨a, trace.length + 1⟩) h]
    exact sameChain_iff_of_chained (hb.model hi []) (hl.model hb hi []) hg hd h

/-- A load whose data arrive in the cycle in which it completes. -/
theorem sameChain_iff_promptLoad :
    ∃ s₀ s₁ s g₀ g,
      (Deg.modelSteps 0).run (.init [{ Deg.lateLoad with completeMemory := 7 }]) = (.ok (), s₀) ∧
      Deg.nextInst.run s₀ = (.ok (some ⟨{ Deg.lateLoad with completeMemory := 7 }, 1⟩), s₁) ∧
      (Deg.model ⟨{ Deg.lateLoad with completeMemory := 7 }, 1⟩).run s₁ = (.ok (), s) ∧
      (Core.constructGraph []).run .init = (.ok (), g₀) ∧
      (Core.model ⟨line { Deg.lateLoad with completeMemory := 7 }, 1⟩).run g₀ = (.ok (), g) ∧
      SameChain 1 s g := by
  obtain ⟨s₀, s₁, s, g₀, g, h₀, h₁, h, hg₀, hg, hiff⟩ :=
    sameChain_iff [] { Deg.lateLoad with completeMemory := 7 } (by decide)
  exact ⟨s₀, s₁, s, g₀, g, h₀, h₁, h, hg₀, hg, hiff.mpr (by decide)⟩

/-- From the completion of a late load to its commit the C++ analysis counts three cycles and the
Python analysis counts one. -/
theorem lateLoad_disagrees :
    Ordered Deg.lateLoad ∧
    (∃ u ∈ ((Deg.modelSteps 1).run (.init [Deg.lateLoad])).2.graph.keys,
      ∃ o ∈ ((Deg.modelSteps 1).run (.init [Deg.lateLoad])).2.outgoing u,
        u.type = .p ∧ o.child.type = .c ∧ o.weight = 3) ∧
    (((Core.model ⟨line Deg.lateLoad, 1⟩).run .init).2.graph.edges.get? ("1-P", "1-C")).map
      (·.delay) = some 1 := by
  decide +kernel

end ArchExplorer.Compare
