import ArchExplorer.Deg.Reachable

/-!
# The weight of an edge as elapsed time

The helpers that enter an edge subtract ticks of their own choice, while the time of a vertex is
chosen by `Vertex.timing`. The two agree on every edge of an instruction whose completion stage is
dated by the tick `complete` (`Timed`), and on the edge from this stage to the commit only then.
-/

namespace ArchExplorer.Deg

open ArchExplorer.Lib

variable {insts window : List RiscvInstruction} {inst : RiscvInstruction} {s s' : O3Graph}
  {u v : Vertex} {e : OutgoingEdge} {rest trace : List TraceLine} {V : Prop}

/-! ### The date of the completion -/

/-- The completion stage is dated by the tick `complete`, which the edges at this stage use. -/
def Timed (inst : RiscvInstruction) : Prop := (completeStage inst).timing = inst.complete

lemma completeStage_timing :
    (completeStage inst).timing =
      if inst.isStore then inst.memory else if inst.isLoad then inst.completeMemory
      else inst.complete := by
  by_cases hm : Merged inst
  · rcases hm with hst | ⟨hl, heq⟩
    · simp [completeStage, Merged, hst, Vertex.timing]
    · simp [completeStage, Merged, TraceLine.not_isStore_of_isLoad hl, hl, heq, Vertex.timing]
  · have hst : inst.isStore = false := by simpa using fun h => hm (.inl h)
    simp [completeStage, hm, hst, single, Vertex.timing]

lemma timed_iff :
    Timed inst ↔ (inst.isStore = true → inst.complete = inst.memory) ∧
      (inst.isLoad = true → inst.complete = inst.completeMemory) := by
  rw [Timed, completeStage_timing]
  by_cases hl : inst.isLoad = true
  · simp [hl, TraceLine.not_isStore_of_isLoad hl, eq_comm]
  · by_cases hst : inst.isStore = true <;> simp [hl, hst, eq_comm]

/-! ### Edges -/

/-- The weight of an edge is the time between its ends. -/
def WeightIsTime (u : Vertex) (e : OutgoingEdge) : Prop :=
  e.weight = delay u.timing e.child.timing

lemma issueStage_timing : (issueStage inst).timing = inst.issue := by
  unfold issueStage
  split_ifs <;> simp [single, Vertex.timing]

/-- The ticks subtracted along the chain of an instruction are the dates of its stages. -/
lemma stages_weightIsTime (h : Timed inst) :
    (stages inst).IsChain fun u v =>
      stageWeight inst u.type v.type = delay u.timing v.timing := by
  obtain ⟨hst, hl⟩ := timed_iff.mp h
  unfold stages innerStages fetchStages dispatchStages issueStage memoryStages completeStage
  -- the cases in which a stage is merged with its neighbour identify two ticks
  split_ifs
  all_goals
    simp [single, decodeStage, renameStage, commitStage, stageWeight, Vertex.timing]
    grind [Merged]

lemma stageEdge_weightIsTime (h : Timed u.inst) (hv : nextStage u = some v) :
    WeightIsTime u (stageEdge u v) :=
  rel_of_nextIn (stages_weightIsTime h) hv

lemma CrossEdge.weightIsTime (h : CrossEdge u e) (ht : Timed u.inst) : WeightIsTime u e := by
  cases h with
  | miss b hlt =>
    rw [completeStage_inst] at ht
    rw [WeightIsTime, show (completeStage _).timing = _ from ht]
    rfl
  | rename b hlt => simp [WeightIsTime, renameStage, single, Vertex.timing]
  | issue b hlt  => simp [WeightIsTime, issueStage_timing]

lemma EdgeKind.weightIsTime (h : EdgeKind V u e) (ht : Timed u.inst) : WeightIsTime u e := by
  cases h with
  | stage hv     => exact stageEdge_weightIsTime ht hv
  | cross h      => exact h.weightIsTime ht
  | virtual hV h =>
    cases h
    rfl

/-- The graph holds elapsed times if the completion stages are dated by `complete`. -/
lemma Built.weightIsTime (h : Built V insts window rest s) (ht : ∀ inst ∈ insts, Timed inst) :
    AllEdges insts WeightIsTime s :=
  fun u hu e he => (h.kinds u hu e he).weightIsTime (ht u.inst hu.1)

lemma delay_left_injective {a b c : UInt64} (h : delay a c = delay b c) : a = b := by
  have hsub : c - a = c - b := UInt64.toNat_inj.mp (by simpa [delay] using h)
  exact (UInt64.sub_right_inj c).mp hsub

/-- The edge to the commit holds an elapsed time only if the completion is dated by `complete`. -/
lemma Built.timed (h : Built V insts window rest s) (hs : AllEdges insts WeightIsTime s)
    (hi : inst ∈ insts) : Timed inst := by
  have hown : Owned insts (completeStage inst) := .of_mem hi completeStage_mem
  have hedge := hs _ hown _ (h.hasNext _ hown _ nextStage_completeStage)
  refine delay_left_injective (c := inst.commit) (hedge.symm.trans ?_)
  rw [stageEdge, completeStage_inst]
  unfold completeStage
  split_ifs <;> rfl

/-! ### Whole runs -/

/-- All instructions of a reachable graph stand in the trace. -/
lemma Progress.mem_trace (h : Progress trace insts rest s) (hi : inst ∈ insts) :
    inst.toTraceLine ∈ trace := by
  have hmem : inst ∈ readAll [] trace := h.trace_eq ▸ subset_readAll insts rest hi
  exact (mem_readAll hmem).resolve_left (by simp)

/-- The weights of a reachable graph are elapsed times if all completions of the trace are dated by
`complete`. -/
lemma Reachable.weightIsTime {pending : Option RiscvInstruction} (h : Reachable trace s pending)
    (ht : ∀ inst : RiscvInstruction, inst.toTraceLine ∈ trace → Timed inst) :
    ∀ u ∈ s.graph.keys, ∀ e ∈ s.outgoing u, WeightIsTime u e := by
  cases pending with
  | none =>
    obtain ⟨insts, rest, hp⟩ := h.known
    intro u hu
    exact hp.built.weightIsTime (fun inst hi => ht inst (hp.mem_trace hi)) u
      (hp.built.good.keys u hu)
  | some inst =>
    obtain ⟨insts, rest, hp, -, -⟩ := h.known
    intro u hu
    exact hp.built.weightIsTime (fun inst hi => ht inst (hp.mem_trace hi)) u
      (hp.built.good.keys u hu)

/-- If memory instructions complete in the cycle of their access, the weights of all edges are
elapsed times on exactly those traces whose loads get their data in the same cycle. -/
theorem weightIsTime_iff (trace : List TraceLine)
    (hmem : ∀ line ∈ trace, line.isMem = true → line.complete = line.memory) :
    (∀ s pending, Reachable trace s pending →
      ∀ u ∈ s.graph.keys, ∀ e ∈ s.outgoing u, e.weight = delay u.timing e.child.timing) ↔
    ∀ line ∈ trace, line.isLoad = true → line.completeMemory = line.memory := by
  constructor
  · intro hall line hline hload
    -- the graph of the whole trace
    obtain ⟨s, hrun, hb⟩ := (Built.init (V := True) trace).modelSteps trace.length
    have hreach : Reachable trace s none := by
      have hinit : Reachable trace (.init trace) none := .init
      simpa [hrun] using reaches_iff.mp (hinit.modelSteps trace.length)
    rw [List.take_length] at hb
    have hedges : AllEdges (readAll [] trace) WeightIsTime s := fun u hu e he =>
      hall s none hreach u (hb.good.mem_keys_of_mem_children hb.numbered hu
        (List.mem_map_of_mem he)) e he
    obtain ⟨inst, hi, rfl⟩ := exists_mem_readAll [] hline
    have htimed := (timed_iff.mp (hb.timed hedges hi)).2 hload
    rw [← htimed, hmem _ hline (by rw [TraceLine.isMem_eq, hload, Bool.true_or])]
  · intro hloads s pending hreach
    refine hreach.weightIsTime fun inst hi => timed_iff.mpr ⟨fun hstore => ?_, fun hload => ?_⟩
    · exact hmem _ hi (by rw [TraceLine.isMem_eq, hstore, Bool.or_true])
    · rw [hloads _ hi hload]
      exact hmem _ hi (by rw [TraceLine.isMem_eq, hload, Bool.true_or])

/-- A load that reads the cache in cycle 7 and gets its data in cycle 9. -/
def lateLoad : TraceLine where
  fetchCacheLine := 1
  processCacheCompletion := 2
  fetch := 2
  decodeSortInsts := 3
  decode := 3
  renameSortInsts := 4
  blockFromRob := 4
  blockFromRf := 4
  blockFromIq := 4
  blockFromLq := 4
  blockFromSq := 4
  rename := 4
  dispatch := 5
  insertReadyList := 5
  issue := 6
  memory := 7
  complete := 7
  completeMemory := 9
  commitHead := 10
  commit := 10
  inst := "ld a5, 0(a5)"
  instType := .memRead
  pc := 65536
  src := [15]
  dst := 15
  rob := 0
  lq := 0
  sq := -1
  iq := 0
  fu := 0

/-- The weights are elapsed times while the data of the load arrive in the cycle of the access. -/
theorem weightIsTime_iff_promptLoad :
    ({ lateLoad with completeMemory := 7 } : TraceLine).isMem = true ∧
    ∀ s pending, Reachable [{ lateLoad with completeMemory := 7 }] s pending →
      ∀ u ∈ s.graph.keys, ∀ e ∈ s.outgoing u, e.weight = delay u.timing e.child.timing :=
  ⟨by decide, (weightIsTime_iff _ (by decide)).mpr (by decide)⟩

/-- One late load is enough: from its completion to its commit pass one cycle, and the edge weighs
three. -/
theorem lateLoad_weight :
    lateLoad.complete = lateLoad.memory ∧ lateLoad.isControl = false ∧
    ∃ u ∈ ((modelSteps 1).run (.init [lateLoad])).2.graph.keys,
      ∃ e ∈ ((modelSteps 1).run (.init [lateLoad])).2.outgoing u,
        u.type = .p ∧ e.child.type = .c ∧ e.weight = 3 ∧ delay u.timing e.child.timing = 1 := by
  decide +kernel

end ArchExplorer.Deg
