import ArchExplorer.Lib.Walk
import ArchExplorer.Deg.Model

/-!
# The stages of an instruction

`stages inst` is the chain of vertices that `model` creates for an instruction, from its fetch to
its commit. `model_eq` says that `model` does nothing but connect this chain.
-/

namespace ArchExplorer.Deg

open ArchExplorer.Lib

variable {inst : RiscvInstruction} {s : O3Graph}

/-! ### The chain -/

/-- The stages that are not merged are built without an assertion. -/
lemma timingOk_single {type : VertexType} (h : type ≠ .f2f ∧ type ≠ .di ∧ type ≠ .mp) :
    TimingOk type inst := by
  cases type <;> simp_all [TimingOk]

lemma timingOk_f2f (h : inst.processCacheCompletion = inst.fetch) : TimingOk .f2f inst := h

lemma timingOk_di (h : inst.dispatch = inst.issue) : TimingOk .di inst := h

/-- A stage of `inst`. -/
def stage (inst : RiscvInstruction) (type : VertexType) (h : TimingOk type inst) : Vertex :=
  ⟨type, inst.instSeq, inst, h⟩

/-- A stage of `inst` that is not merged. -/
def single (inst : RiscvInstruction) (type : VertexType)
    (h : type ≠ .f2f ∧ type ≠ .di ∧ type ≠ .mp) : Vertex :=
  stage inst type (timingOk_single h)

@[simp] lemma stage_type {type : VertexType} (h : TimingOk type inst) :
    (stage inst type h).type = type := rfl

@[simp] lemma stage_inst {type : VertexType} (h : TimingOk type inst) :
    (stage inst type h).inst = inst := rfl

@[simp] lemma stage_instSeq {type : VertexType} (h : TimingOk type inst) :
    (stage inst type h).instSeq = inst.instSeq := rfl

def fetchStages (inst : RiscvInstruction) : List Vertex :=
  if h : inst.processCacheCompletion = inst.fetch then
    [single inst .f1 (by decide), stage inst .f2f (timingOk_f2f h)]
  else
    [single inst .f1 (by decide), single inst .f2 (by decide), single inst .f (by decide)]

/-- The stage in which an instruction is issued. -/
def issueStage (inst : RiscvInstruction) : Vertex :=
  if h : inst.dispatch = inst.issue then stage inst .di (timingOk_di h)
  else single inst .i (by decide)

/-- The stage in which an instruction is dispatched, unless it is issued in the same cycle. -/
def dispatchStages (inst : RiscvInstruction) : List Vertex :=
  if inst.dispatch = inst.issue then [] else [single inst .ds (by decide)]

/-- The condition under which the memory access and the completion are one stage. -/
def Merged (inst : RiscvInstruction) : Prop :=
  inst.isStore = true ∨ inst.isLoad = true ∧ inst.memory = inst.completeMemory

instance : Decidable (Merged inst) := by unfold Merged; infer_instance

lemma Merged.timingOk (h : Merged inst) : TimingOk .mp inst := by
  intro hl
  rcases h with h | h
  · simp [TraceLine.not_isStore_of_isLoad hl] at h
  · exact h.2

/-- The stage in which an instruction completes. -/
def completeStage (inst : RiscvInstruction) : Vertex :=
  if h : Merged inst then stage inst .mp h.timingOk
  else single inst .p (by decide)

/-- The memory access of a load that does not complete in the same cycle. -/
def memoryStages (inst : RiscvInstruction) : List Vertex :=
  if inst.isLoad = true ∧ ¬Merged inst then [single inst .m (by decide)] else []

/-- The first stage: the request of the cache line. -/
def firstStage (inst : RiscvInstruction) : Vertex := single inst .f1 (by decide)

/-- The decoding stage. -/
def decodeStage (inst : RiscvInstruction) : Vertex := single inst .d (by decide)

/-- The renaming stage. -/
def renameStage (inst : RiscvInstruction) : Vertex := single inst .r (by decide)

/-- The last stage: the commit. -/
def commitStage (inst : RiscvInstruction) : Vertex := single inst .c (by decide)

/-- All stages but the commit. -/
def innerStages (inst : RiscvInstruction) : List Vertex :=
  fetchStages inst ++ decodeStage inst :: renameStage inst ::
    (dispatchStages inst ++ issueStage inst :: (memoryStages inst ++ [completeStage inst]))

def stages (inst : RiscvInstruction) : List Vertex := innerStages inst ++ [commitStage inst]

/-! ### The edges of the chain -/

/-- The weight that `model` gives to the edge between two consecutive stages. -/
def stageWeight (inst : RiscvInstruction) : VertexType → VertexType → Latency
  | .f1,  _   => delay inst.fetchCacheLine inst.processCacheCompletion
  | .f2f, _   => delay inst.fetch inst.decode
  | .f2,  _   => delay inst.processCacheCompletion inst.fetch
  | .f,   _   => delay inst.fetch inst.decode
  | .d,   _   => delay inst.decode inst.rename
  | .r,   .di => delay inst.rename inst.issue
  | .r,   _   => delay inst.rename inst.dispatch
  | .ds,  _   => delay inst.dispatch inst.issue
  | .di,  .mp => delay inst.dispatch inst.memory
  | .i,   .mp => delay inst.issue inst.complete
  | .di,  .m  => delay inst.issue inst.memory
  | .i,   .m  => delay inst.issue inst.memory
  | .di,  _   => delay inst.issue inst.complete
  | .i,   _   => delay inst.issue inst.complete
  | .m,   _   => delay inst.memory inst.completeMemory
  | _,    _   => delay inst.complete inst.commit

/-- The bottleneck of the edge that leaves a stage with the given weight. -/
def stageBottleneck (type : VertexType) (weight : Latency) : Bottleneck :=
  match type with
  | .f1 => icacheBottleneck weight
  | .m  => dcacheBottleneck weight
  | _   => .base

def stageEdge (u v : Vertex) : OutgoingEdge :=
  ⟨v, stageWeight u.inst u.type v.type, 0,
    stageBottleneck u.type (stageWeight u.inst u.type v.type)⟩

namespace O3Graph

/-- Enter the edges between consecutive vertices of a list. -/
def connectChain (s : O3Graph) : List Vertex → O3Graph
  | u :: v :: l => (s.connect u (stageEdge u v)).connectChain (v :: l)
  | _           => s

@[simp] lemma connectChain_cons_cons (u v : Vertex) (l : List Vertex) :
    s.connectChain (u :: v :: l) = (s.connect u (stageEdge u v)).connectChain (v :: l) := rfl

@[simp] lemma connectChain_singleton (u : Vertex) : s.connectChain [u] = s := rfl

/-- Two chains that meet in a vertex are one chain. -/
lemma connectChain_join (s : O3Graph) (l : List Vertex) (v : Vertex) (r : List Vertex) :
    (s.connectChain (l ++ [v])).connectChain (v :: r) = s.connectChain (l ++ v :: r) := by
  match l with
  | []          => rfl
  | [u]         => rfl
  | u :: w :: l =>
    simp only [List.cons_append, connectChain_cons_cons]
    exact connectChain_join _ (w :: l) v r

@[simp] lemma connect_instStream (u : Vertex) (e : OutgoingEdge) :
    (s.connect u e).instStream = s.instStream := rfl

@[simp] lemma connect_instWindow (u : Vertex) (e : OutgoingEdge) :
    (s.connect u e).instWindow = s.instWindow := rfl

@[simp] lemma connectChain_instStream (s : O3Graph) (l : List Vertex) :
    (s.connectChain l).instStream = s.instStream := by
  match l with
  | []          => rfl
  | [_]         => rfl
  | u :: v :: l => rw [connectChain_cons_cons, connectChain_instStream, connect_instStream]

@[simp] lemma connectChain_instWindow (s : O3Graph) (l : List Vertex) :
    (s.connectChain l).instWindow = s.instWindow := by
  match l with
  | []          => rfl
  | [_]         => rfl
  | u :: v :: l => rw [connectChain_cons_cons, connectChain_instWindow, connect_instWindow]

end O3Graph

lemma mkVertex_apply (hs : s.instStream.instSeq = inst.instSeq) {type : VertexType}
    (h : TimingOk type inst) :
    (mkVertex type inst).run s = (.ok (stage inst type h), s) := by
  simp [mkVertex, getInstSeq, Exec.run_bind, hs, h, stage]

lemma mkVertex_single (hs : s.instStream.instSeq = inst.instSeq) {type : VertexType}
    (h : type ≠ .f2f ∧ type ≠ .di ∧ type ≠ .mp) :
    (mkVertex type inst).run s = (.ok (single inst type h), s) :=
  mkVertex_apply hs (timingOk_single h)

@[simp] lemma addEdge_apply (u v : Vertex) (weight cost : Latency) (b : Bottleneck) :
    (addEdge u v weight cost b).run s = (.ok (), s.connect u ⟨v, weight, cost, b⟩) := rfl

lemma modelFetch_eq (hs : s.instStream.instSeq = inst.instSeq) :
    (modelFetch inst).run s =
      (.ok (), s.connectChain (fetchStages inst ++ [decodeStage inst])) := by
  unfold modelFetch fetchStages
  split_ifs with h
  · simp [Exec.run_bind, mkVertex_single hs, mkVertex_apply hs (timingOk_f2f h), h, fromF1ToF2f,
      fromF2fToD, stageEdge, single, stageWeight, stageBottleneck, decodeStage]
  · simp [Exec.run_bind, mkVertex_single hs, fromF1ToF2, fromF2ToF, fromFToD, stageEdge, single,
      stageWeight, stageBottleneck, decodeStage]

lemma modelRename_eq (hs : s.instStream.instSeq = inst.instSeq) :
    (modelRename inst).run s = (.ok (), s.connectChain [decodeStage inst, renameStage inst]) := by
  simp [modelRename, Exec.run_bind, mkVertex_single hs, fromDToR, stageEdge, single,
    stageWeight, stageBottleneck, decodeStage, renameStage]

lemma modelIssue_eq (hs : s.instStream.instSeq = inst.instSeq) :
    (modelIssue inst).run s = (.ok (), s.connectChain
      (renameStage inst :: (dispatchStages inst ++ [issueStage inst]))) := by
  unfold modelIssue dispatchStages issueStage
  split_ifs with h
  · simp [Exec.run_bind, mkVertex_single hs, mkVertex_apply hs (timingOk_di h), fromRToDi,
      stageEdge, single, stageWeight, stageBottleneck, renameStage]
  · simp [Exec.run_bind, mkVertex_single hs, fromRToDs, fromDsToI, stageEdge, single,
      stageWeight, stageBottleneck, renameStage]

/-- The two ways to pass a merged memory stage. -/
lemma modelMerged_eq (h : Merged inst) (hs : s.instStream.instSeq = inst.instSeq) :
    (if inst.dispatch = inst.issue then modelDiMpC inst else modelIMpC inst).run s =
      (.ok (), s.connectChain [issueStage inst, completeStage inst, commitStage inst]) := by
  have hmp := mkVertex_apply hs h.timingOk
  unfold issueStage completeStage
  split_ifs with hi
  · simp [modelDiMpC, Exec.run_bind, hmp, mkVertex_single hs, mkVertex_apply hs (timingOk_di hi),
      hi, fromDiToMp, fromMpToC, stageEdge, single, stageWeight, stageBottleneck, commitStage]
  · simp [modelIMpC, Exec.run_bind, hmp, mkVertex_single hs, fromIToMp, fromMpToC,
      stageEdge, single, stageWeight, stageBottleneck, commitStage]

lemma modelExecute_eq (hs : s.instStream.instSeq = inst.instSeq) :
    (modelExecute inst).run s = (.ok (), s.connectChain
      (issueStage inst :: (memoryStages inst ++ [completeStage inst, commitStage inst]))) := by
  by_cases hm : Merged inst
  · have hmem : memoryStages inst = [] := by simp [memoryStages, hm]
    rw [hmem, List.nil_append, ← modelMerged_eq hm hs]
    rcases hm with hst | ⟨hl, heq⟩
    · simp [modelExecute, TraceLine.isMem_eq, hst]
    · have hst := TraceLine.not_isStore_of_isLoad hl
      simp [modelExecute, TraceLine.isMem_eq, hl, hst, heq]
  · have hst : inst.isStore = false := by
      by_contra h
      exact hm (.inl (by simpa using h))
    unfold memoryStages issueStage completeStage
    by_cases hl : inst.isLoad = true
    · have hne : inst.memory ≠ inst.completeMemory := fun heq => hm (.inr ⟨hl, heq⟩)
      by_cases hi : inst.dispatch = inst.issue
      · simp [modelExecute, TraceLine.isMem_eq, hl, hst, hne, hm, hi, Exec.run_bind,
          mkVertex_single hs, mkVertex_apply hs (timingOk_di hi), fromDiToM, fromMToP, fromPToC,
          stageEdge, single, stageWeight, stageBottleneck, commitStage]
      · simp [modelExecute, TraceLine.isMem_eq, hl, hst, hne, hm, hi, Exec.run_bind,
          mkVertex_single hs, fromIToM, fromMToP, fromPToC, stageEdge, single, stageWeight,
          stageBottleneck, commitStage]
    · by_cases hi : inst.dispatch = inst.issue
      · simp [modelExecute, TraceLine.isMem_eq, hl, hst, hm, hi, Exec.run_bind,
          mkVertex_single hs, mkVertex_apply hs (timingOk_di hi), fromDiToP, fromPToC, stageEdge,
          single, stageWeight, stageBottleneck, commitStage]
      · simp [modelExecute, TraceLine.isMem_eq, hl, hst, hm, hi, Exec.run_bind,
          mkVertex_single hs, fromIToP, fromPToC, stageEdge, single, stageWeight,
          stageBottleneck, commitStage]

/-- `model` connects the stages of the instruction, provided it is the last one that was read. -/
lemma model_eq (hs : s.instStream.instSeq = inst.instSeq) :
    (model inst).run s = (.ok (), s.connectChain (stages inst)) := by
  unfold model
  rw [Exec.run_bind_ok (modelFetch_eq hs), Exec.run_bind_ok (modelRename_eq (by simpa using hs)),
    Exec.run_bind_ok (modelIssue_eq (by simpa using hs)), modelExecute_eq (by simpa using hs),
    O3Graph.connectChain_join]
  -- the four chains overlap in `decodeStage`, `renameStage` and `issueStage`
  have hr := O3Graph.connectChain_join s (fetchStages inst ++ [decodeStage inst])
    (renameStage inst) (dispatchStages inst ++ [issueStage inst])
  have hi := O3Graph.connectChain_join s
    (fetchStages inst ++ decodeStage inst :: renameStage inst :: dispatchStages inst)
    (issueStage inst) (memoryStages inst ++ [completeStage inst, commitStage inst])
  simp only [List.append_assoc, List.cons_append, List.nil_append] at hr hi
  rw [hr, hi]
  simp [stages, innerStages]

/-! ### Vertices of the chain -/

lemma mem_stages {u : Vertex} (hu : u ∈ stages inst) :
    u.inst = inst ∧ u.instSeq = inst.instSeq := by
  have hall : ∀ u ∈ stages inst, u.inst = inst ∧ u.instSeq = inst.instSeq := by
    unfold stages innerStages fetchStages dispatchStages issueStage memoryStages completeStage
    split_ifs <;> simp [single, decodeStage, renameStage, commitStage]
  exact hall u hu

/-- The stages of an instruction stand in the order of their numbers. -/
lemma stages_sorted (inst : RiscvInstruction) :
    (stages inst).Pairwise fun u v => u.type.num < v.type.num := by
  unfold stages innerStages fetchStages dispatchStages issueStage memoryStages completeStage
  split_ifs <;> simp [single, decodeStage, renameStage, commitStage, VertexType.num]

lemma stages_nodup (inst : RiscvInstruction) : (stages inst).Nodup :=
  (stages_sorted inst).imp fun h heq => by simp [heq] at h

/-- An instruction has at most one vertex of each type. -/
lemma eq_of_mem_stages {u v : Vertex} (hu : u ∈ stages inst) (hv : v ∈ stages inst)
    (htype : u.type = v.type) : u = v := by
  obtain ⟨hui, hus⟩ := mem_stages hu
  obtain ⟨hvi, hvs⟩ := mem_stages hv
  exact Vertex.ext htype (hus.trans hvs.symm) (hui.trans hvi.symm)

lemma firstStage_mem : firstStage inst ∈ stages inst := by
  unfold stages innerStages fetchStages
  split_ifs <;> simp [firstStage]

lemma renameStage_mem : renameStage inst ∈ stages inst := by simp [stages, innerStages]

lemma issueStage_mem : issueStage inst ∈ stages inst := by simp [stages, innerStages]

lemma completeStage_mem : completeStage inst ∈ stages inst := by simp [stages, innerStages]

lemma commitStage_mem : commitStage inst ∈ stages inst := by simp [stages]

/-- An instruction that is issued in the cycle of its dispatch has no separate issue stage. -/
lemma type_ne_i {u : Vertex} (h : inst.dispatch = inst.issue) (hu : u ∈ stages inst) :
    u.type ≠ .i := by
  have hall : ∀ u ∈ stages inst, u.type ≠ .i := by
    unfold stages innerStages fetchStages dispatchStages issueStage memoryStages completeStage
    split_ifs <;> simp [single, decodeStage, renameStage, commitStage]
  exact hall u hu

/-- An instruction with a merged memory stage has no separate completion stage. -/
lemma type_ne_p {u : Vertex} (h : Merged inst) (hu : u ∈ stages inst) : u.type ≠ .p := by
  have hall : ∀ u ∈ stages inst, u.type ≠ .p := by
    unfold stages innerStages fetchStages dispatchStages issueStage memoryStages completeStage
    split_ifs <;> simp [single, decodeStage, renameStage, commitStage]
  exact hall u hu

/-- The successor of a stage. -/
def nextStage (u : Vertex) : Option Vertex := nextIn (stages u.inst) u

lemma nextStage_instSeq {u v : Vertex} (h : nextStage u = some v) : v.instSeq = u.instSeq := by
  have hmem := mem_of_nextIn h
  rw [(mem_stages hmem.1).2, (mem_stages (List.mem_of_mem_tail hmem.2)).2]

/-- The commit is the only stage without a successor. -/
lemma exists_nextStage {u : Vertex} (hu : u ∈ stages inst) (hc : u.type ≠ .c) :
    ∃ v ∈ stages inst, nextStage u = some v ∧ u.type.num < v.type.num := by
  have hui := (mem_stages hu).1
  have hne : u ≠ commitStage inst := fun h => hc (by rw [h]; rfl)
  have hinner : u ∈ innerStages inst := by
    rcases List.mem_append.mp hu with h | h
    · exact h
    · exact absurd (List.mem_singleton.mp h) hne
  obtain ⟨v, hv⟩ := exists_nextIn hinner hne
  rw [← stages] at hv
  exact ⟨v, List.mem_of_mem_tail (mem_of_nextIn hv).2, by rw [nextStage, hui, hv],
    rel_of_nextIn (stages_sorted inst).isChain hv⟩

/-- The commit follows the completion. -/
lemma nextStage_completeStage : nextStage (completeStage inst) = some (commitStage inst) := by
  have hinst : (completeStage inst).inst = inst := (mem_stages completeStage_mem).1
  have hsplit : stages inst = (fetchStages inst ++ decodeStage inst :: renameStage inst ::
      (dispatchStages inst ++ issueStage inst :: memoryStages inst)) ++
        [completeStage inst, commitStage inst] := by
    simp [stages, innerStages]
  have hnodup := stages_nodup inst
  rw [hsplit, List.nodup_append] at hnodup
  rw [nextStage, hinst, hsplit]
  exact nextIn_append (fun h => hnodup.2.2 _ h _ List.mem_cons_self rfl) _

end ArchExplorer.Deg
