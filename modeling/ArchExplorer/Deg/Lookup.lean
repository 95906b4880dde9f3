import ArchExplorer.Deg.Window

/-!
# Looking up the vertices of earlier instructions

The dependences of an instruction ask for vertices by instruction and stage. The lookup of the
source is replaced by one that checks its answers. In every reachable state the checks succeed and
change nothing.
-/

namespace ArchExplorer.Deg

open ArchExplorer.Lib

variable {V : Prop} {insts : List RiscvInstruction} {inst i : RiscvInstruction} {s : O3Graph}
  {rest trace : List TraceLine} {type : VertexType}

/-- Model an instruction whose dependences use `lookup`. -/
def modelInstVia (lookup : RiscvInstruction → VertexType → DegM Vertex) (inst : RiscvInstruction) :
    DegM Unit := do
  model inst
  interactionVia lookup inst

/-! ### The checked lookup -/

/-- The time of a stage of an instruction. -/
def tickOf (inst : RiscvInstruction) : VertexType → UInt64
  | .f1       => inst.fetchCacheLine
  | .f2       => inst.processCacheCompletion
  | .f | .f2f => inst.fetch
  | .d        => inst.decode
  | .r        => inst.rename
  | .ds       => inst.dispatch
  | .i | .di  => inst.issue
  | .m | .mp  => inst.memory
  | .p        => if inst.isLoad then inst.completeMemory else inst.complete
  | .c        => inst.commit

/-- The stage itself or the merged stage that it is a part of. -/
def Covers : VertexType → VertexType → Prop
  | .f2f, type => type = .f2f ∨ type = .f2 ∨ type = .f
  | .di,  type => type = .di ∨ type = .ds ∨ type = .i
  | .mp,  type => type = .mp ∨ type = .m ∨ type = .p
  | type', type => type' = type

instance (type' type : VertexType) : Decidable (Covers type' type) := by
  unfold Covers
  split <;> infer_instance

/-- The vertex that a lookup should find. -/
structure IsVertexOf (inst : RiscvInstruction) (type : VertexType) (v : Vertex) : Prop where
  inst_eq : v.inst = inst
  instSeq_eq : v.instSeq = inst.instSeq
  covers : Covers v.type type
  timing_eq : v.timing = tickOf inst type

instance (inst : RiscvInstruction) (type : VertexType) (v : Vertex) :
    Decidable (IsVertexOf inst type v) :=
  decidable_of_iff
    (v.inst = inst ∧ v.instSeq = inst.instSeq ∧ Covers v.type type ∧ v.timing = tickOf inst type)
    ⟨fun ⟨h₁, h₂, h₃, h₄⟩ => ⟨h₁, h₂, h₃, h₄⟩, fun ⟨h₁, h₂, h₃, h₄⟩ => ⟨h₁, h₂, h₃, h₄⟩⟩

/-- `get_vertex_from_inst` that stops unless the vertex is the right one. -/
def checkedVertex (inst : RiscvInstruction) (type : VertexType) : DegM Vertex := do
  let v ← getVertexFromInst inst type
  if IsVertexOf inst type v then
    return v
  else
    Exec.throw (.noKey (hashInst inst type) inst.inst)

/-- The stages that the dependences ask for. -/
def Asked (inst : RiscvInstruction) (type : VertexType) : Prop :=
  type = .f1 ∨ type = .r ∨ type = .i ∨ type = .p ∧ inst.isMem = false

lemma issueStage_isVertexOf (i : RiscvInstruction) : IsVertexOf i .i (issueStage i) := by
  unfold issueStage
  split_ifs with h
  · exact ⟨rfl, rfl, .inr (.inr rfl), rfl⟩
  · exact ⟨rfl, rfl, rfl, rfl⟩

/-- An instruction that does not access memory has a completion stage of its own. -/
lemma completeStage_isVertexOf (h : i.isMem = false) : IsVertexOf i .p (completeStage i) := by
  have hm : ¬Merged i := by
    rw [TraceLine.isMem_eq, Bool.or_eq_false_iff] at h
    simp [Merged, h.1, h.2]
  rw [completeStage, dif_neg hm]
  exact ⟨rfl, rfl, rfl, rfl⟩

/-- Every stage that is asked for is found, however many instructions were modelled since. -/
lemma Built.getVertex_asked {window : List RiscvInstruction} (h : Built V insts window rest s)
    (hi : i ∈ insts) (ha : Asked i type) :
    ∃ v, (getVertexFromInst i type).run s = (.ok v, s) ∧ IsVertexOf i type v := by
  rcases ha with rfl | rfl | rfl | ⟨rfl, hmem⟩
  · exact ⟨_, h.getVertex_f1 hi, rfl, rfl, rfl, rfl⟩
  · exact ⟨_, h.getVertex_r hi, rfl, rfl, rfl, rfl⟩
  · exact ⟨_, h.getVertex_i hi, issueStage_isVertexOf i⟩
  · exact ⟨_, h.getVertex_p hi, completeStage_isVertexOf hmem⟩

lemma checkedVertex_run {v : Vertex} (h : (getVertexFromInst i type).run s = (.ok v, s))
    (hv : IsVertexOf i type v) : (checkedVertex i type).run s = (.ok v, s) := by
  rw [checkedVertex, Exec.run_bind_ok h, if_pos hv]
  rfl

/-! ### The checks change nothing -/

/-- The computations do the same while the dependences of `inst` are entered. -/
def Agrees (x y : DegM Unit) (inst : RiscvInstruction) (insts : List RiscvInstruction) : Prop :=
  ∀ (V : Prop) rest s, Built V (inst :: insts) insts rest s → x.run s = y.run s

lemma agrees_refl {x : DegM Unit} : Agrees x x inst insts := fun _ _ _ _ => rfl

lemma agrees_ite {p : Prop} [Decidable p] {x y : DegM Unit} (h : Agrees x y inst insts) :
    Agrees (if p then x else pure ()) (if p then y else pure ()) inst insts := by
  split_ifs
  · exact h
  · exact agrees_refl

lemma agrees_bind {x x' y y' : DegM Unit} (hx : Agrees x x' inst insts)
    (hx' : Extends x' inst insts) (hy : Agrees y y' inst insts) :
    Agrees (do x; y) (do x'; y') inst insts := by
  intro V rest s h
  obtain ⟨_, s₁, hrun, h₁⟩ := (hx' V rest s h).returns
  rw [Exec.run_bind_ok ((hx V rest s h).trans hrun), Exec.run_bind_ok hrun]
  exact hy V rest s₁ h₁

/-- Two lookups, and what is done with the vertices. -/
lemma agrees_lookups {type' : VertexType} {f g : Vertex → Vertex → DegM Unit}
    (hi : i ∈ inst :: insts) (ha : Asked i type) (ha' : Asked inst type')
    (hfg : ∀ u v, Agrees (f u v) (g u v) inst insts) :
    Agrees (do f (← checkedVertex i type) (← checkedVertex inst type'))
      (do g (← getVertexFromInst i type) (← getVertexFromInst inst type')) inst insts := by
  intro V rest s h
  obtain ⟨u, hu, hu'⟩ := h.getVertex_asked hi ha
  obtain ⟨v, hv, hv'⟩ := h.getVertex_asked List.mem_cons_self ha'
  rw [Exec.run_bind_ok (checkedVertex_run hu hu'), Exec.run_bind_ok (checkedVertex_run hv hv'),
    Exec.run_bind_ok hu, Exec.run_bind_ok hv]
  exact hfg u v V rest s h

lemma agrees_missBp (hctl : ∀ i ∈ insts, i.isControl = true → i.isMem = false) :
    Agrees (missBpVia checkedVertex inst) (modelMissBpInteractionImpl inst) inst insts := by
  intro V rest s h
  rw [modelMissBpInteractionImpl, missBpVia, missBpVia, Exec.run_bind_ok (Exec.run_get s),
    Exec.run_bind_ok (Exec.run_get s), h.window_eq]
  cases insts with
  | nil => rfl
  | cons prev insts =>
    dsimp only
    split_ifs with hprev
    · have hmem := hctl prev List.mem_cons_self hprev.1
      exact agrees_lookups (by simp) (.inr (.inr (.inr ⟨rfl, hmem⟩))) (.inl rfl)
        (fun _ _ => agrees_refl) V rest s h
    · rfl

lemma agrees_rename (hi : i ∈ insts) {f : Vertex → Vertex → DegM Unit} :
    Agrees (do f (← checkedVertex i .r) (← checkedVertex inst .r))
      (do f (← getVertexFromInst i .r) (← getVertexFromInst inst .r)) inst insts :=
  agrees_lookups (List.mem_cons_of_mem _ hi) (.inr (.inl rfl)) (.inr (.inl rfl))
    fun _ _ => agrees_refl

lemma agrees_connectRename (dep : RiscvInstruction → Bool) (f : Vertex → Vertex → DegM Unit) :
    Agrees (connectRenameVia checkedVertex inst dep f)
      (connectRenameVia getVertexFromInst inst dep f) inst insts := by
  intro V rest s h
  rw [connectRenameVia, connectRenameVia, Exec.run_bind_ok (Exec.run_get s),
    Exec.run_bind_ok (Exec.run_get s), h.window_eq]
  cases hf : insts.find? dep with
  | none   => rfl
  | some i => exact agrees_rename (List.mem_of_find?_eq_some hf) V rest s h

lemma agrees_rf : Agrees (rfVia checkedVertex inst) (modelRfInteractionImpl inst) inst insts := by
  refine agrees_ite fun V rest s h => ?_
  obtain ⟨r, hr, hmem⟩ := findRfDep_ok fun i hi => h.instSeq_lt hi
  have hrun : (Exec.ofExcept (findRfDep inst s.instWindow) : DegM _).run s = (.ok r, s) := by
    rw [h.window_eq, hr]
    rfl
  rw [Exec.run_bind_ok (Exec.run_get s), Exec.run_bind_ok (Exec.run_get s), Exec.run_bind_ok hrun,
    Exec.run_bind_ok hrun]
  cases r with
  | none   => rfl
  | some i => exact agrees_rename (hmem i rfl) V rest s h

lemma agrees_fuLoop {l : List RiscvInstruction} (hl : ∀ i ∈ l, i ∈ insts) :
    Agrees (fuLoopVia checkedVertex inst l) (fuLoopVia getVertexFromInst inst l) inst insts := by
  induction l with
  | nil => exact agrees_refl
  | cons i l ih =>
    obtain ⟨hi, hl⟩ := List.forall_mem_cons.mp hl
    rw [fuLoopVia, fuLoopVia]
    split_ifs
    · refine agrees_lookups (List.mem_cons_of_mem _ hi) (.inr (.inr (.inl rfl)))
        (.inr (.inr (.inl rfl))) fun u v => ?_
      cases fuBottleneck inst with
      | some b => exact agrees_refl
      | none   => exact ih hl
    · exact ih hl

lemma agrees_fu : Agrees (fuVia checkedVertex inst) (modelFuInteractionImpl inst) inst insts := by
  refine agrees_ite fun V rest s h => ?_
  rw [Exec.run_bind_ok (Exec.run_get s), Exec.run_bind_ok (Exec.run_get s), h.window_eq]
  exact agrees_fuLoop (fun i hi => hi) V rest s h

lemma agrees_raw (const : ℕ) :
    Agrees (rawVia checkedVertex inst const) (modelRawInteractionImpl inst const) inst insts := by
  refine agrees_ite fun V rest s h => ?_
  obtain ⟨r, hr, hmem⟩ := rawOuter_ok (fun i hi => h.instSeq_lt hi) const (insts.length + 1) 0 0
    none (by simp)
  have hrun : (Exec.ofExcept (rawOuter inst const s.instWindow (s.instWindow.length + 1) 0 0
      none) : DegM _).run s = (.ok r, s) := by
    rw [h.window_eq, hr]
    rfl
  rw [Exec.run_bind_ok (Exec.run_get s), Exec.run_bind_ok (Exec.run_get s), Exec.run_bind_ok hrun,
    Exec.run_bind_ok hrun]
  cases r with
  | none   => rfl
  | some i =>
    exact agrees_lookups (List.mem_cons_of_mem _ (hmem i rfl).1) (.inr (.inr (.inl rfl)))
      (.inr (.inr (.inl rfl))) (fun _ _ => agrees_refl) V rest s h

lemma agrees_interactionImpl (hctl : ∀ i ∈ insts, i.isControl = true → i.isMem = false) :
    Agrees (interactionImplVia checkedVertex inst) (modelInteractionImpl inst) inst insts := by
  intro V rest s h
  rw [modelInteractionImpl, interactionImplVia, interactionImplVia,
    Exec.run_bind_ok (Exec.run_get s), Exec.run_bind_ok (Exec.run_get s), h.window_eq]
  split_ifs with hne
  · rfl
  · exact agrees_bind (agrees_missBp hctl) (extends_missBp hne)
      (agrees_bind (agrees_ite (agrees_connectRename _ _)) extends_rob
      (agrees_bind (agrees_ite (agrees_connectRename _ _)) extends_lq
      (agrees_bind (agrees_ite (agrees_connectRename _ _)) extends_sq
      (agrees_bind agrees_rf extends_rf
      (agrees_bind (agrees_ite (agrees_connectRename _ _)) extends_iq
      (agrees_bind agrees_fu extends_fu (agrees_raw rawConst))))))) V rest s h

/-- Modelling an instruction with checked lookups. -/
lemma Built.modelInstVia (h : Built V insts insts rest s) (inst : RiscvInstruction)
    (hi : inst.instSeq = insts.length + 1) (rest' : List TraceLine)
    (hctl : ∀ i ∈ insts, i.isControl = true → i.isMem = false) :
    (Deg.modelInstVia checkedVertex inst).run
        { s with instStream := ⟨rest', insts.length + 1⟩ } =
      (Deg.modelInst inst).run { s with instStream := ⟨rest', insts.length + 1⟩ } := by
  have hmodel : (Deg.model inst).run { s with instStream := ⟨rest', insts.length + 1⟩ } = _ :=
    model_eq hi.symm
  have hagrees := agrees_interactionImpl hctl V rest' _ (h.model hi rest')
  rw [Deg.modelInstVia, Deg.modelInst, Exec.run_bind_ok hmodel, Exec.run_bind_ok hmodel,
    modelInteraction, interactionVia, interactionVia, Exec.run_bind, Exec.run_bind, hagrees]
  rfl

/-- Let no control instruction of the trace access memory. Whenever an instruction is modelled, also
after any number of other instructions and analyses, each lookup that its dependences make returns
the vertex of the stage it asks for, or the merged vertex with this stage: a vertex of exactly the
instruction that was asked for, at the time of the stage. None of them fails. -/
theorem lookups_right (trace : List TraceLine)
    (hctl : ∀ line ∈ trace, line.isControl = true → line.isMem = false) (s : O3Graph)
    (inst : RiscvInstruction) (h : Reachable trace s (some inst)) :
    modelInstVia getVertexFromInst inst = modelInst inst ∧
      ∃ s', (modelInstVia checkedVertex inst).run s = (.ok (), s') ∧
        (modelInst inst).run s = (.ok (), s') := by
  refine ⟨rfl, ?_⟩
  obtain ⟨insts, rest, hp, hseq, hstream⟩ := h.known
  have hs : { unread insts (inst.toTraceLine :: rest) s with
      instStream := ⟨rest, insts.length + 1⟩ } = s := by
    rw [← hstream, unread]
  -- the instructions of the window are lines of the trace
  have hinsts (i : RiscvInstruction) (hi : i ∈ insts) : i.toTraceLine ∈ trace := by
    have hmem : i ∈ readAll [] trace := by
      rw [hp.trace_eq]
      exact subset_readAll _ _ hi
    exact (mem_readAll hmem).resolve_left (by simp)
  have hagrees := hp.built.modelInstVia inst hseq rest fun i hi => hctl _ (hinsts i hi)
  have hwp := hp.built.modelInst inst hseq rest
  rw [hs] at hagrees hwp
  obtain ⟨_, s', hrun, -⟩ := hwp.returns
  exact ⟨s', hagrees.trans hrun, hrun⟩

/-- A branch and an addition whose fetch waits for it. -/
def branchTrace : List TraceLine := [{ addAt 1 [1] 5 with inst := "beq" }, addAt 100 [5] 6]

theorem lookups_right_branch :
    ∃ s, Reachable branchTrace s (some ⟨addAt 100 [5] 6, 2⟩) ∧
      modelInstVia getVertexFromInst ⟨addAt 100 [5] 6, 2⟩ = modelInst ⟨addAt 100 [5] 6, 2⟩ ∧
      ∃ s', (modelInstVia checkedVertex ⟨addAt 100 [5] 6, 2⟩).run s = (.ok (), s') ∧
        (modelInst ⟨addAt 100 [5] 6, 2⟩).run s = (.ok (), s') := by
  obtain ⟨s, hsteps, hb⟩ := (Built.init (V := False) branchTrace).modelSteps 1
  have hreach : Reachable branchTrace s none := by
    have hinit : Reachable branchTrace (.init branchTrace) none := .init
    have := hinit.modelSteps 1
    rwa [reaches_iff, hsteps] at this
  have hpending := hreach.read (nextInst_run hb)
  refine ⟨_, hpending, lookups_right _ ?_ _ _ hpending⟩
  intro line hline _
  fin_cases hline <;> rfl

end ArchExplorer.Deg
