import ArchExplorer.Deg.AnalysisEffect

/-!
# States of a run

`Reachable` lets an analysis start at any time, also between the reading of an instruction and its
modelling, and goes on after an analysis that failed. `Progress` says what is known of every such
state; `run_reachable` that the main loop passes through such states only.
-/

namespace ArchExplorer.Deg

open ArchExplorer.Lib

variable {insts window : List RiscvInstruction} {inst : RiscvInstruction} {s s' : O3Graph}
  {rest trace : List TraceLine} {pending : Option RiscvInstruction}

/-- The states of the builder on a trace, with the instruction that was read but is not yet
modelled. -/
inductive Reachable (trace : List TraceLine) : O3Graph → Option RiscvInstruction → Prop
  | init : Reachable trace (.init trace) none
  | read {s s' : O3Graph} {pending : Option RiscvInstruction} (h : Reachable trace s none)
      (hr : nextInst.run s = (.ok pending, s')) : Reachable trace s' pending
  | model {s : O3Graph} {inst : RiscvInstruction} (h : Reachable trace s (some inst)) :
      Reachable trace ((modelInst inst).run s).2 none
  | analyze {s : O3Graph} {pending : Option RiscvInstruction} (h : Reachable trace s pending)
      (fuel : ℕ) : Reachable trace ((analyzeWindow fuel).run s).2 pending

/-! ### The invariant -/

/-- The instructions `insts` of the trace are modelled and `rest` is still to be read. While an
instruction is pending, it has already been counted. -/
structure Progress (trace : List TraceLine) (insts : List RiscvInstruction)
    (rest : List TraceLine) (s : O3Graph) : Prop where
  built : Built True insts insts rest s
  trace_eq : readAll [] trace = readAll insts rest

/-- The state before the pending instruction was read. -/
def unread (insts : List RiscvInstruction) (rest : List TraceLine) (s : O3Graph) : O3Graph :=
  { s with instStream := ⟨rest, insts.length⟩ }

/-- What is known of a reachable state. -/
def Known (trace : List TraceLine) (s : O3Graph) : Option RiscvInstruction → Prop
  | none      => ∃ insts rest, Progress trace insts rest s
  | some inst => ∃ insts rest, Progress trace insts (inst.toTraceLine :: rest)
      (unread insts (inst.toTraceLine :: rest) s) ∧ inst.instSeq = insts.length + 1 ∧
      s.instStream = ⟨rest, insts.length + 1⟩

lemma Built.analyzed {V : Prop} (h : Built True insts window rest s)
    (hev : Evolves insts VirtualEdge V s s') : Built True insts window rest s' :=
  h.evolves hev (fun _ _ => .virtual trivial) (absurd trivial)

/-- The steps of an analysis do not depend on the position in the trace. -/
lemma Evolves.unread {Q : Vertex → OutgoingEdge → Prop} {P : Prop}
    (h : Evolves insts Q P s s') (rest : List TraceLine) :
    Evolves insts Q P (unread insts rest s) (unread insts rest s') := by
  refine Relation.ReflTransGen.lift (Deg.unread insts rest) ?_ _ _ h
  rintro s₁ _ (hv | ⟨hv, hp⟩ | ⟨hu, he, hlt, hq⟩)
  · exact .touchGraph hv
  · exact .touchPred hv hp
  · exact .connect hu he hlt hq

/-- An analysis can be run in the two kinds of states. -/
lemma analyzeWindow_evolves (hn : Numbered insts) (hg : Good insts s)
    (hle : insts.length ≤ s.instStream.instSeq) (fuel : ℕ) :
    Evolves insts VirtualEdge True s ((analyzeWindow fuel).run s).2 := by
  rw [← Exec.wp_last_iff (I := fun s' => Evolves insts VirtualEdge True s s')]
  exact (safe_analyzeWindow hn fuel s hg hle).mono (fun _ _ h => h.1) fun _ _ h => h

lemma Good.of_unread (h : Good insts (unread insts rest s)) : Good insts s :=
  ⟨h.keys, h.predKeys, h.child, h.parent, h.transpose, h.lookup_sound, h.lookup_complete⟩

lemma Known.analyze (h : Known trace s pending) (fuel : ℕ) :
    Known trace ((analyzeWindow fuel).run s).2 pending := by
  cases pending with
  | none =>
    obtain ⟨insts, rest, hp⟩ := h
    have hev := analyzeWindow_evolves hp.built.numbered hp.built.good
      (by rw [hp.built.stream_eq]) fuel
    exact ⟨insts, rest, hp.built.analyzed hev, hp.trace_eq⟩
  | some inst =>
    obtain ⟨insts, rest, hp, hseq, hstream⟩ := h
    have hev := analyzeWindow_evolves hp.built.numbered hp.built.good.of_unread
      (by rw [hstream]; exact Nat.le_succ _) fuel
    exact ⟨insts, rest, ⟨hp.built.analyzed (hev.unread _), hp.trace_eq⟩, hseq,
      hev.instStream.trans hstream⟩

lemma Known.read (h : Known trace s none) (hr : nextInst.run s = (.ok pending, s')) :
    Known trace s' pending := by
  obtain ⟨insts, rest, hp⟩ := h
  cases rest with
  | nil =>
    rw [nextInst_run_nil hp.built] at hr
    cases hr
    exact ⟨insts, [], hp⟩
  | cons line rest =>
    rw [nextInst_run hp.built] at hr
    cases hr
    refine ⟨insts, rest, ⟨?_, hp.trace_eq⟩, rfl, rfl⟩
    have hs :
        unread insts (line :: rest) { s with instStream := ⟨rest, insts.length + 1⟩ } = s := by
      rw [unread, ← hp.built.stream_eq]
    rw [hs]
    exact hp.built

lemma Known.model (h : Known trace s (some inst)) :
    Known trace ((modelInst inst).run s).2 none := by
  obtain ⟨insts, rest, hp, hseq, hstream⟩ := h
  have hwp := hp.built.modelInst inst hseq rest
  have hs : { unread insts (inst.toTraceLine :: rest) s with
      instStream := ⟨rest, insts.length + 1⟩ } = s := by
    rw [← hstream, unread]
  rw [hs] at hwp
  obtain ⟨_, s', hrun, hb⟩ := hwp.returns
  rw [hrun]
  refine ⟨inst :: insts, rest, hb, hp.trace_eq.trans ?_⟩
  rw [readAll, ← hseq]

theorem Reachable.known (h : Reachable trace s pending) : Known trace s pending := by
  induction h with
  | init => exact ⟨[], trace, .init trace, rfl⟩
  | read h hr ih => exact ih.read hr
  | model h ih => exact ih.model
  | analyze h fuel ih => exact ih.analyze fuel

/-! ### Runs -/

lemma nextInst_run_next (s : O3Graph) :
    nextInst.run s =
      (.ok s.instStream.next.1, { s with instStream := s.instStream.next.2 }) := rfl

/-- However the computation ends, the state is reachable. -/
def Reaches {α : Type} (trace : List TraceLine) (x : DegM α)
    (pending : Option RiscvInstruction) (s : O3Graph) : Prop :=
  x.wp (fun _ s' => Reachable trace s' pending) (fun _ s' => Reachable trace s' pending) s

lemma reaches_iff {α : Type} {x : DegM α} :
    Reaches trace x pending s ↔ Reachable trace (x.run s).2 pending :=
  Exec.wp_last_iff (I := fun s' => Reachable trace s' pending)

lemma Reachable.modelSteps (h : Reachable trace s none) (n : ℕ) :
    Reaches trace (modelSteps n) none s := by
  induction n generalizing s with
  | zero => exact h
  | succ n ih =>
    have hread := h.read (nextInst_run_next s)
    rw [Reaches, Deg.modelSteps, Exec.wp_bind, Exec.wp_iff_of_run (nextInst_run_next s)]
    cases hnext : s.instStream.next.1 with
    | none =>
      rw [hnext] at hread
      exact hread
    | some inst =>
      rw [hnext] at hread
      rw [Exec.wp_bind]
      exact (reaches_iff.mpr hread.model).mono (fun _ _ h₁ => ih h₁) fun _ _ h₁ => h₁

/-- Running code of the graph builder within the main loop. -/
@[simp] lemma wp_lift {α : Type} (x : DegM α) {Q : α → RunState → Prop}
    {E : DegError → RunState → Prop} {st : RunState} :
    (RunM.lift x).wp Q E st ↔
      x.wp (fun a s => Q a { st with o3 := s }) (fun e s => E e { st with o3 := s }) st.o3 := by
  unfold Exec.wp RunM.lift
  dsimp only
  rcases x.run st.o3 with ⟨_ | _, _⟩ <;> rfl

/-- The main loop is in a reachable state, and all analyses were started in such states. -/
structure Visits (trace : List TraceLine) (pending : Option RiscvInstruction) (st : RunState) :
    Prop where
  o3 : Reachable trace st.o3 pending
  calls : ∀ s ∈ st.calls, ∃ pending, Reachable trace s pending

lemma Visits.callAnalyzeWindow {st : RunState} (h : Visits trace pending st) (fuel : ℕ) :
    (callAnalyzeWindow fuel).wp (fun _ => Visits trace pending) (fun _ => Visits trace pending)
      st := by
  have hcalls : ∀ s ∈ st.o3 :: st.calls, ∃ pending, Reachable trace s pending := by
    intro s hs
    rcases List.mem_cons.mp hs with rfl | hs
    · exact ⟨pending, h.o3⟩
    · exact h.calls s hs
  rw [Deg.callAnalyzeWindow, Exec.wp_bind, Exec.wp_modify, Exec.wp_bind, wp_lift]
  refine (reaches_iff.mpr (h.o3.analyze fuel)).mono ?_ ?_
  · exact fun _ s' hs' => ⟨hs', hcalls⟩
  · exact fun _ s' hs' => ⟨hs', hcalls⟩

lemma Visits.analyzeWhen {st : RunState} (h : Visits trace pending st) (c : Prop) [Decidable c]
    (fuel : ℕ) :
    (analyzeWhen c fuel).wp (fun _ => Visits trace pending) (fun _ => Visits trace pending) st := by
  unfold Deg.analyzeWhen
  split_ifs
  · exact h.callAnalyzeWindow fuel
  · exact h

lemma Visits.runStep {st : RunState} (h : Visits trace none st) (window fuel : ℕ) :
    (runStep window fuel).wp (fun _ => Visits trace none) (fun _ st' => ∃ p, Visits trace p st')
      st := by
  have hread := h.o3.read (nextInst_run_next st.o3)
  rw [Deg.runStep, Exec.wp_bind, wp_lift, Exec.wp_iff_of_run (nextInst_run_next st.o3),
    Exec.wp_bind, wp_lift, getInstSeq, Exec.wp_bind, Exec.wp_get, Exec.wp_pure, Exec.wp_bind]
  cases hnext : st.o3.instStream.next.1 with
  | none =>
    rw [hnext] at hread
    have hvisits : Visits trace none { st with o3 := _ } := ⟨hread, h.calls⟩
    refine (hvisits.analyzeWhen _ fuel).mono (fun _ st₁ h₁ => ?_) fun _ _ h₁ => ⟨none, h₁⟩
    rw [Exec.wp_bind]
    exact (h₁.analyzeWhen _ fuel).mono (fun _ _ h₂ => h₂) fun _ _ h₂ => ⟨none, h₂⟩
  | some inst =>
    rw [hnext] at hread
    have hvisits : Visits trace (some inst) { st with o3 := _ } := ⟨hread, h.calls⟩
    refine (hvisits.analyzeWhen _ fuel).mono (fun _ st₁ h₁ => ?_) fun _ _ h₁ => ⟨some inst, h₁⟩
    rw [Exec.wp_bind, wp_lift]
    refine (reaches_iff.mpr h₁.o3.model).mono ?_ ?_
    · exact fun _ _ h₂ => ⟨h₂, h₁.calls⟩
    · exact fun _ _ h₂ => ⟨none, h₂, h₁.calls⟩

/-- The main loop passes through reachable states only. -/
theorem run_reachable (window fuel : ℕ) (trace : List TraceLine) :
    ∃ pending, Visits trace pending (run window fuel trace).2 := by
  have hloop (n : ℕ) (st : RunState) (h : Visits trace none st) :
      ∃ pending, Visits trace pending ((runLoop window fuel n).run st).2 := by
    induction n generalizing st with
    | zero => exact ⟨none, h⟩
    | succ n ih =>
      rw [← Exec.wp_last_iff (I := fun st' => ∃ p, Visits trace p st'), runLoop, Exec.wp_bind]
      refine (h.runStep window fuel).mono (fun goOn st' h' => ?_) fun _ _ h' => h'
      cases goOn with
      | true  => exact Exec.wp_last_iff.mpr (ih st' h')
      | false => exact ⟨none, h'⟩
  exact hloop _ _ ⟨.init, by simp⟩

end ArchExplorer.Deg
