import ArchExplorer.Lib.Label
import ArchExplorer.Core.Model

/-!
# The chain of an instruction

The edges that `model` adds for an instruction connect its nodes one after the other, in the order
of the pipeline, and each of them takes as long as the time between its nodes.
-/

namespace ArchExplorer.Core

open ArchExplorer.Lib

/-! ### Names and ranks -/

lemma PipelineStage.value_injective : Function.Injective PipelineStage.value := by
  intro a b h
  cases a <;> cases b <;> first | rfl | exact absurd h (by decide)

lemma uniqueName_inj {m n : ℕ} {a b : PipelineStage} (h : uniqueName m a = uniqueName n b) :
    m = n ∧ a = b := by
  obtain ⟨hseq, hvalue⟩ := label_inj (by cases a <;> decide) h
  exact ⟨hseq, PipelineStage.value_injective hvalue⟩

/-- The position of a stage in the pipeline. -/
def PipelineStage.position : PipelineStage → ℕ
  | f1       => 0
  | f2       => 1
  | f2f      => 1
  | fetch    => 2
  | decode   => 3
  | rename   => 4
  | dispatch => 5
  | di       => 5
  | issue    => 6
  | memory   => 7
  | mp       => 7
  | complete => 8
  | commit   => 9

lemma PipelineStage.position_le (stage : PipelineStage) : stage.position ≤ 9 := by
  cases stage <;> decide

/-- Nodes are ordered by their instruction and within it by their position in the pipeline. -/
def Node.rank (n : Node) : ℕ := 10 * n.seq + n.stage.position

lemma Node.rank_lt_of_seq {u v : Node} (h : u.seq < v.seq) : u.rank < v.rank := by
  have := u.stage.position_le
  unfold Node.rank
  omega

variable {inst : RiscvInstruction} {n : Node} {T : Prop}

@[simp] lemma mkNode_seq (stage : PipelineStage) (t : ℤ) : (mkNode stage t inst).seq = inst.seq :=
  rfl

@[simp] lemma mkNode_timestamp (stage : PipelineStage) (t : ℤ) :
    (mkNode stage t inst).timestamp = t := rfl

@[simp] lemma mkNode_stage (stage : PipelineStage) (t : ℤ) : (mkNode stage t inst).stage = stage :=
  rfl

/-! ### Links -/

/-- What the analysis needs of an edge: it goes forward and costs nothing within an instruction, and
its delay is the time between its nodes if `T` holds. -/
structure EdgeOk (T : Prop) (e : Edge) : Prop where
  delay : T → e.delay = e.v.timestamp - e.u.timestamp
  rank : e.u.rank < e.v.rank
  within : e.u.seq = e.v.seq → e.cost = 0

/-- The edges connect the nodes one after the other. -/
structure Links (T : Prop) (nodes : List Node) (edges : List Edge) : Prop where
  chain : nodes.IsChain fun a b => ∃ e ∈ edges, e.u = a ∧ e.v = b
  ends : ∀ e ∈ edges, e.u ∈ nodes ∧ e.v ∈ nodes
  ok : ∀ e ∈ edges, EdgeOk T e

/-- Two chains that meet in a node. -/
lemma Links.append {l r : List Node} {x : Node} {es es' : List Edge} (h : Links T (l ++ [x]) es)
    (h' : Links T (x :: r) es') : Links T (l ++ x :: r) (es ++ es') where
  chain := by
    have hl : (l ++ [x]).IsChain fun a b => ∃ e ∈ es ++ es', e.u = a ∧ e.v = b :=
      h.chain.imp fun a b ⟨e, he, hab⟩ => ⟨e, List.mem_append_left _ he, hab⟩
    have hr : ([x] ++ r).IsChain fun a b => ∃ e ∈ es ++ es', e.u = a ∧ e.v = b :=
      h'.chain.imp fun a b ⟨e, he, hab⟩ => ⟨e, List.mem_append_right _ he, hab⟩
    have := hl.append_overlap hr (List.cons_ne_nil _ _)
    rwa [List.append_assoc, List.singleton_append] at this
  ends := by
    intro e he
    rcases List.mem_append.mp he with he | he
    · obtain ⟨hu, hv⟩ := h.ends e he
      constructor <;> simp only [List.mem_append, List.mem_cons, List.not_mem_nil] at hu hv ⊢ <;>
        tauto
    · obtain ⟨hu, hv⟩ := h'.ends e he
      exact ⟨List.mem_append_right _ hu, List.mem_append_right _ hv⟩
  ok := by
    intro e he
    rcases List.mem_append.mp he with he | he
    · exact h.ok e he
    · exact h'.ok e he

/-- An edge between two nodes of an instruction. -/
lemma edgeOk_within {a b : PipelineStage} {t t' d : ℤ} {btnk : Bottleneck}
    (hd : T → d = t' - t) (hab : a.position < b.position) :
    EdgeOk T ⟨mkNode a t inst, mkNode b t' inst, d, 0, btnk⟩ where
  delay := hd
  rank := by
    simp only [Node.rank, mkNode_seq, mkNode_stage]
    omega
  within := fun _ => rfl

lemma links_fetch : Links T ([nodeF1 inst] ++ fetchNodes inst ++ [nodeDecode inst])
    (fetchEdges inst) := by
  unfold fetchNodes fetchEdges
  split_ifs with h
  · refine ⟨by simp, by simp, ?_⟩
    simp only [List.forall_mem_cons, List.not_mem_nil, false_implies, implies_true, and_true]
    exact ⟨edgeOk_within (fun _ => by rw [h]) (by decide), edgeOk_within (fun _ => rfl) (by decide)⟩
  · refine ⟨by simp, by simp, ?_⟩
    simp only [List.forall_mem_cons, List.not_mem_nil, false_implies, implies_true, and_true]
    exact ⟨edgeOk_within (fun _ => rfl) (by decide), edgeOk_within (fun _ => rfl) (by decide),
      edgeOk_within (fun _ => rfl) (by decide)⟩

lemma links_rename : Links T [nodeDecode inst, nodeRename inst]
    [⟨nodeDecode inst, nodeRename inst, inst.rename - inst.decode, 0, .base⟩] := by
  refine ⟨by simp, by simp, ?_⟩
  simp only [List.forall_mem_cons, List.not_mem_nil, false_implies, implies_true, and_true]
  exact edgeOk_within (fun _ => rfl) (by decide)

/-- The node in which an instruction is issued. -/
def issuedNode (inst : RiscvInstruction) : Node :=
  if inst.dispatch = inst.issue then nodeDI inst else nodeIssue inst

lemma issuedNode_timestamp : (issuedNode inst).timestamp = inst.issue := by
  unfold issuedNode
  split_ifs with h
  · exact h
  · rfl

/-- What the records of memory instructions and of control instructions satisfy. -/
structure TraceLine.Legal (line : TraceLine) : Prop where
  mem : line.isMem = true → line.complete = line.memory
  control : line.isControl = true → line.isMem = false

lemma edgeOk_dispatchIssue : EdgeOk T (edgeDispatchIssue inst) :=
  edgeOk_within (fun _ => rfl) (by decide)

lemma edgeOk_memoryComplete : EdgeOk T (edgeMemoryComplete inst) :=
  edgeOk_within (fun _ => rfl) (by decide)

/-- An edge of an instruction that is complete with its access. -/
lemma edgeOk_access (h : T → inst.complete = inst.memory) {a b : PipelineStage} {t t' d : ℤ}
    {btnk : Bottleneck} (hd : inst.complete = inst.memory → d = t' - t)
    (hab : a.position < b.position) : EdgeOk T ⟨mkNode a t inst, mkNode b t' inst, d, 0, btnk⟩ :=
  edgeOk_within (fun ht => hd (h ht)) hab

/-- From the renaming to the commit. -/
lemma links_execute (h : T → inst.Legal) :
    Links T ([nodeRename inst] ++ issueNodes inst ++ executeNodes inst ++ [nodeCommit inst])
      (issueEdges inst ++ executeEdges inst ++ [commitEdge inst]) := by
  have hmem : T → inst.isMem = true → inst.complete = inst.memory := fun ht => (h ht).mem
  unfold issueNodes executeNodes storeNodes loadNodes issueEdges executeEdges loadEdges commitEdge
  rw [inst.isMem_eq] at hmem ⊢
  cases hload : inst.isLoad with
  | true =>
    have hcomplete : T → inst.complete = inst.memory := fun ht => hmem ht (by rw [hload]; rfl)
    rw [TraceLine.not_isStore_of_isLoad hload]
    by_cases hissue : inst.dispatch = inst.issue <;>
      by_cases hmemory : inst.memory = inst.completeMemory <;>
      simp only [hissue, hmemory, if_true, if_false, Bool.true_or, Bool.false_eq_true] <;>
      refine ⟨by simp [edgeDispatchIssue, edgeMemoryComplete],
        by simp [edgeDispatchIssue, edgeMemoryComplete], ?_⟩ <;>
      simp only [List.cons_append, List.nil_append, List.forall_mem_cons, List.not_mem_nil,
        false_implies, implies_true, and_true]
    · exact ⟨edgeOk_access hcomplete (by omega) (by decide),
        edgeOk_access hcomplete (by omega) (by decide),
        edgeOk_access hcomplete (by omega) (by decide)⟩
    · exact ⟨edgeOk_access hcomplete (by omega) (by decide),
        edgeOk_access hcomplete (by omega) (by decide), edgeOk_memoryComplete,
        edgeOk_within (fun _ => rfl) (by decide)⟩
    · exact ⟨edgeOk_within (fun _ => rfl) (by decide), edgeOk_dispatchIssue, edgeOk_dispatchIssue,
        edgeOk_access hcomplete (by omega) (by decide),
        edgeOk_access hcomplete (by omega) (by decide)⟩
    · exact ⟨edgeOk_within (fun _ => rfl) (by decide), edgeOk_dispatchIssue, edgeOk_dispatchIssue,
        edgeOk_within (fun _ => rfl) (by decide), edgeOk_memoryComplete,
        edgeOk_within (fun _ => rfl) (by decide)⟩
  | false =>
    cases hstore : inst.isStore with
    | true =>
      have hcomplete : T → inst.complete = inst.memory :=
        fun ht => hmem ht (by rw [hload, hstore]; rfl)
      by_cases hissue : inst.dispatch = inst.issue <;>
        simp only [hissue, if_true, if_false, Bool.or_true, Bool.false_eq_true] <;>
        refine ⟨by simp [edgeDispatchIssue], by simp [edgeDispatchIssue], ?_⟩ <;>
        simp only [List.cons_append, List.nil_append, List.forall_mem_cons, List.not_mem_nil,
          false_implies, implies_true, and_true]
      · exact ⟨edgeOk_access hcomplete (by omega) (by decide),
          edgeOk_access hcomplete (by omega) (by decide),
          edgeOk_access hcomplete (by omega) (by decide)⟩
      · exact ⟨edgeOk_within (fun _ => rfl) (by decide), edgeOk_dispatchIssue, edgeOk_dispatchIssue,
          edgeOk_access hcomplete (by omega) (by decide),
          edgeOk_access hcomplete (by omega) (by decide)⟩
    | false =>
      by_cases hissue : inst.dispatch = inst.issue <;>
        simp only [hissue, if_true, if_false, Bool.or_false, Bool.false_eq_true] <;>
        refine ⟨by simp [edgeDispatchIssue], by simp [edgeDispatchIssue], ?_⟩ <;>
        simp only [List.cons_append, List.nil_append, List.forall_mem_cons, List.not_mem_nil,
          false_implies, implies_true, and_true]
      · exact ⟨edgeOk_within (fun _ => by omega) (by decide),
          edgeOk_within (fun _ => by omega) (by decide),
          edgeOk_within (fun _ => by omega) (by decide)⟩
      · exact ⟨edgeOk_within (fun _ => rfl) (by decide), edgeOk_dispatchIssue, edgeOk_dispatchIssue,
          edgeOk_within (fun _ => rfl) (by decide), edgeOk_within (fun _ => rfl) (by decide)⟩

/-- The edges of an instruction connect all of its nodes. -/
lemma links_model (h : T → inst.Legal) : Links T (modelNodes inst) (modelEdges inst) := by
  have hrename : Links T [nodeDecode inst, nodeRename inst] _ := links_rename
  have hfront := Links.append links_fetch hrename
  have hall := Links.append (l := [nodeF1 inst] ++ fetchNodes inst ++ [nodeDecode inst])
    (by simpa using hfront) (by simpa using links_execute h)
  simpa [modelNodes, modelEdges] using hall

/-! ### The nodes of an instruction -/

lemma head?_modelNodes : (modelNodes inst).head? = some (nodeF1 inst) := rfl

lemma getLast?_modelNodes : (modelNodes inst).getLast? = some (nodeCommit inst) :=
  List.getLast?_concat

lemma nodeF1_mem : nodeF1 inst ∈ modelNodes inst := List.mem_of_mem_head? head?_modelNodes

lemma nodeCommit_mem : nodeCommit inst ∈ modelNodes inst :=
  List.mem_of_getLast? getLast?_modelNodes

lemma nodeRename_mem : nodeRename inst ∈ modelNodes inst := by simp [modelNodes]

lemma issuedNode_mem : issuedNode inst ∈ modelNodes inst := by
  simp only [modelNodes, issueNodes, issuedNode, List.mem_append]
  split_ifs <;> simp

/-- The node in which an instruction completes. -/
def completedNode (inst : RiscvInstruction) : Node :=
  if inst.isStore = true ∨ inst.isLoad = true ∧ inst.memory = inst.completeMemory then nodeMP inst
  else if inst.isLoad then nodeLoadComplete inst
  else nodeComplete inst

lemma completedNode_eq (h : inst.isMem = false) : completedNode inst = nodeComplete inst := by
  rw [inst.isMem_eq, Bool.or_eq_false_iff] at h
  simp [completedNode, h]

/-- The memory access of a load that completes later. -/
def accessNodes (inst : RiscvInstruction) : List Node :=
  if inst.isLoad = true ∧ inst.memory ≠ inst.completeMemory then [nodeMemory inst] else []

lemma executeNodes_eq : executeNodes inst = accessNodes inst ++ [completedNode inst] := by
  unfold executeNodes storeNodes loadNodes accessNodes completedNode
  rw [inst.isMem_eq]
  cases hload : inst.isLoad with
  | true =>
    rw [TraceLine.not_isStore_of_isLoad hload]
    by_cases h : inst.memory = inst.completeMemory <;> simp [h]
  | false => cases inst.isStore <;> simp

lemma completedNode_mem : completedNode inst ∈ modelNodes inst := by
  simp [modelNodes, executeNodes_eq]

lemma completedNode_stage :
    (completedNode inst).stage = .mp ∨ (completedNode inst).stage = .complete := by
  unfold completedNode
  split_ifs
  · exact .inl rfl
  · exact .inr rfl
  · exact .inr rfl

/-- The nodes of an instruction carry its number, and their stage tells the two forms of the issue
and of the completion apart. -/
lemma mem_modelNodes (h : n ∈ modelNodes inst) :
    n.seq = inst.seq ∧ (n.stage = .issue → inst.dispatch ≠ inst.issue) ∧
      (n.stage = .complete → (completedNode inst).stage ≠ .mp) := by
  have hall : ∀ n ∈ modelNodes inst,
      n.seq = inst.seq ∧ (n.stage = .issue → inst.dispatch ≠ inst.issue) ∧
        (n.stage = .complete → (completedNode inst).stage ≠ .mp) := by
    simp only [modelNodes, List.forall_mem_append, List.forall_mem_cons, List.not_mem_nil,
      false_implies, implies_true, and_true]
    refine ⟨⟨⟨⟨⟨⟨rfl, nofun, nofun⟩, ?_⟩, ⟨rfl, nofun, nofun⟩, rfl, nofun, nofun⟩, ?_⟩, ?_⟩, rfl,
      nofun, nofun⟩
    · unfold fetchNodes
      split_ifs <;> simp [nodeF2F, nodeF2, nodeFetch]
    · unfold issueNodes
      split_ifs with hissue <;> simp [nodeDI, nodeDispatch, nodeIssue, hissue]
    · rw [executeNodes_eq]
      unfold accessNodes completedNode
      split_ifs <;> simp [nodeMP, nodeMemory, nodeLoadComplete, nodeComplete]
  exact hall n h

lemma seq_of_mem (h : n ∈ modelNodes inst) : n.seq = inst.seq := (mem_modelNodes h).1

@[simp] lemma issuedNode_seq : (issuedNode inst).seq = inst.seq := seq_of_mem issuedNode_mem

@[simp] lemma completedNode_seq : (completedNode inst).seq = inst.seq :=
  seq_of_mem completedNode_mem

@[simp] lemma mkNode_rank (stage : PipelineStage) (t : ℤ) :
    (mkNode stage t inst).rank = 10 * inst.seq + stage.position := rfl

/-- The last nodes of an instruction in the order of the pipeline. -/
lemma isChain_execute : (nodeRename inst :: (issueNodes inst ++ executeNodes inst ++
    [nodeCommit inst])).IsChain fun a b => a.rank < b.rank := by
  have hstore : inst.isLoad = true → inst.isStore = false := TraceLine.not_isStore_of_isLoad
  rw [executeNodes_eq]
  unfold issueNodes accessNodes completedNode
  split_ifs <;>
    simp_all [PipelineStage.position, nodeRename, nodeDI, nodeDispatch, nodeIssue, nodeMP,
      nodeMemory, nodeLoadComplete, nodeComplete, nodeCommit]

/-- The nodes are listed in the order of the pipeline. -/
lemma pairwise_rank (inst : RiscvInstruction) :
    (modelNodes inst).Pairwise fun a b => a.rank < b.rank := by
  have hfetch : ([nodeF1 inst] ++ fetchNodes inst ++ [nodeDecode inst] ++ [nodeRename inst]).IsChain
      fun a b => a.rank < b.rank := by
    unfold fetchNodes
    split_ifs <;>
      simp [PipelineStage.position, nodeF1, nodeF2F, nodeF2, nodeFetch, nodeDecode, nodeRename]
  have hchain : (modelNodes inst).IsChain fun a b => a.rank < b.rank := by
    have hexecute : ([nodeRename inst] ++ _).IsChain fun a b => a.rank < b.rank := isChain_execute
    have := hfetch.append_overlap hexecute (List.cons_ne_nil _ _)
    simpa [modelNodes] using this
  have : IsTrans Node fun a b => a.rank < b.rank := ⟨fun _ _ _ => lt_trans⟩
  exact List.isChain_iff_pairwise.mp hchain

/-- The names of the nodes of an instruction are distinct. -/
lemma nodup_names (inst : RiscvInstruction) : ((modelNodes inst).map Node.name).Nodup := by
  refine List.pairwise_map.mpr ((pairwise_rank inst).imp ?_)
  intro a b hab hname
  obtain ⟨hseq, hstage⟩ := uniqueName_inj hname
  rw [Node.rank, Node.rank, hseq, hstage] at hab
  exact hab.false

/-- The edges of an instruction lead from one of its nodes to another. -/
lemma ends_mem_modelNodes :
    ∀ e ∈ modelEdges inst, e.u ∈ modelNodes inst ∧ e.v ∈ modelNodes inst := by
  unfold modelEdges modelNodes fetchEdges fetchNodes issueEdges issueNodes executeEdges executeNodes
    storeNodes loadEdges loadNodes commitEdge
  rw [inst.isMem_eq]
  cases hload : inst.isLoad with
  | true =>
    rw [TraceLine.not_isStore_of_isLoad hload]
    split_ifs <;> simp_all [edgeDispatchIssue, edgeMemoryComplete]
  | false => cases hstore : inst.isStore <;> split_ifs <;> simp_all [edgeDispatchIssue]

end ArchExplorer.Core
