import ArchExplorer.Deg.Reachable

/-!
# Windows of a run

A trace that is shorter than the window is modelled completely and then analyzed once. In a longer
one the first analysis is started when the last instruction of the window has been read and not yet
been modelled, so that its commit is missing.
-/

namespace ArchExplorer.Deg

open ArchExplorer.Lib

variable {insts : List RiscvInstruction} {s s' : O3Graph} {st : RunState}
  {rest trace : List TraceLine} {w fuel : ℕ}

lemma RunM.lift_run {α : Type} {x : DegM α} {a : α} (h : x.run st.o3 = (.ok a, s')) :
    (RunM.lift x).run st = (.ok a, { st with o3 := s' }) := by
  simp only [RunM.lift, h]

lemma getInstSeq_run (s : O3Graph) : getInstSeq.run s = (.ok s.instStream.instSeq, s) := rfl

lemma analyzeWhen_false {c : Prop} [Decidable c] (hc : ¬c) :
    analyzeWhen c fuel = pure () := if_neg hc

/-! ### Inside a window -/

/-- One iteration inside a window. -/
lemma runStep_inside {line : TraceLine} (st : RunState)
    (h : Built False insts insts (line :: rest) st.o3) (hw : insts.length + 1 < w) (fuel : ℕ) :
    ∃ s', (modelInst ⟨line, insts.length + 1⟩).run
        { st.o3 with instStream := ⟨rest, insts.length + 1⟩ } = (.ok (), s') ∧
      Built False (⟨line, insts.length + 1⟩ :: insts) (⟨line, insts.length + 1⟩ :: insts) rest s' ∧
      (runStep w fuel).run st = (.ok true, { st with o3 := s' }) := by
  obtain ⟨_, s', hrun, hb⟩ := (h.modelInst ⟨line, insts.length + 1⟩ rfl rest).returns
  have hno : ¬(0 < insts.length + 1 ∧ (insts.length + 1) % w = 0) := by
    rw [Nat.mod_eq_of_lt hw]
    omega
  refine ⟨s', hrun, hb, ?_⟩
  rw [runStep, Exec.run_bind_ok (RunM.lift_run (nextInst_run h)),
    Exec.run_bind_ok (RunM.lift_run (getInstSeq_run _)), analyzeWhen_false hno]
  exact Exec.run_bind_ok (RunM.lift_run hrun) _

/-- The loop inside a window does nothing but model instructions. -/
lemma runLoop_inside (st : RunState) (h : Built False insts insts rest st.o3) {k : ℕ}
    (hk : k ≤ rest.length) (hw : insts.length + k < w) (fuel m : ℕ) :
    ∃ s', (modelSteps k).run st.o3 = (.ok (), s') ∧
      Built False (readAll insts (rest.take k)) (readAll insts (rest.take k)) (rest.drop k) s' ∧
      (runLoop w fuel (k + m)).run st = (runLoop w fuel m).run { st with o3 := s' } := by
  induction k generalizing insts rest st with
  | zero => exact ⟨st.o3, rfl, by simpa [readAll] using h, by rw [Nat.zero_add]⟩
  | succ k ih =>
    cases rest with
    | nil => simp at hk
    | cons line rest =>
      rw [List.length_cons] at hk
      have hw₁ : insts.length + 1 < w := by omega
      have hw₂ : (⟨line, insts.length + 1⟩ :: insts : List RiscvInstruction).length + k < w := by
        rw [List.length_cons]
        omega
      obtain ⟨s₁, hmodel, hb₁, hrun₁⟩ := runStep_inside st h hw₁ fuel
      obtain ⟨s₂, hsteps, hb₂, hrun₂⟩ := ih { st with o3 := s₁ } hb₁ (by omega) hw₂
      refine ⟨s₂, ?_, by simpa [readAll] using hb₂, ?_⟩
      · rw [modelSteps, Exec.run_bind_ok (nextInst_run h)]
        exact (Exec.run_bind_ok hmodel _).trans hsteps
      · have hsucc : k + 1 + m = k + m + 1 := by omega
        rw [hsucc, runLoop, Exec.run_bind_ok hrun₁]
        exact hrun₂

/-- A call of the analysis is recorded before it is run. -/
lemma callAnalyzeWindow_run (fuel : ℕ) (st : RunState) :
    (callAnalyzeWindow fuel).run st =
      (((analyzeWindow fuel).run st.o3).1.map fun _ => (),
        ⟨((analyzeWindow fuel).run st.o3).2, st.o3 :: st.calls⟩) := by
  rcases hrun : (analyzeWindow fuel).run st.o3 with ⟨e | a, s'⟩ <;>
    simp [callAnalyzeWindow, Exec.run_bind, RunM.lift, hrun, Except.map]

/-- The run on a trace that is shorter than the window. -/
lemma run_of_length_lt (hne : trace ≠ []) (hlt : trace.length < w) (fuel : ℕ) :
    ∃ s, (modelSteps trace.length).run (.init trace) = (.ok (), s) ∧
      Built False (readAll [] trace) (readAll [] trace) [] s ∧
      run w fuel trace = (((analyzeWindow fuel).run s).1.map fun _ => (),
        ⟨((analyzeWindow fuel).run s).2, [s]⟩) := by
  obtain ⟨s, hsteps, hb, hrun⟩ := runLoop_inside { o3 := .init trace } (.init trace) le_rfl
    (by simpa using hlt) fuel 1
  rw [List.take_length, List.drop_length] at hb
  refine ⟨s, hsteps, hb, hrun.trans ?_⟩
  -- the end of the trace
  have hlen : s.instStream.instSeq = trace.length := by
    rw [hb.stream_eq, length_readAll, List.length_nil, Nat.zero_add]
  have hpos : 0 < trace.length := List.length_pos_iff.mpr hne
  have hmod : trace.length % w = trace.length := Nat.mod_eq_of_lt hlt
  have hno : ¬(0 < s.instStream.instSeq ∧ s.instStream.instSeq % w = 0) := by
    rw [hlen, hmod]
    omega
  have hyes : s.instStream.instSeq % w ≠ 0 := by
    rw [hlen, hmod]
    omega
  have hstep : (runStep w fuel).run { o3 := s } =
      (callAnalyzeWindow fuel >>= fun _ => pure false).run { o3 := s } := by
    rw [runStep, Exec.run_bind_ok (RunM.lift_run (nextInst_run_nil hb)),
      Exec.run_bind_ok (RunM.lift_run (getInstSeq_run _)), analyzeWhen_false hno]
    rw [analyzeWhen, if_pos hyes]
    rfl
  rw [runLoop, Exec.run_bind, hstep, Exec.run_bind, callAnalyzeWindow_run]
  rcases (analyzeWindow fuel).run s with ⟨e | a, s'⟩ <;> rfl

/-! ### The end of a window -/

/-- The commit of instruction `k` is in the graph. -/
def Committed (s : O3Graph) (k : ℕ) : Prop :=
  ∃ u ∈ s.graph.keys, ∃ e ∈ s.outgoing u, e.child.instSeq = k ∧ e.child.type = .c

instance (s : O3Graph) (k : ℕ) : Decidable (Committed s k) := by
  unfold Committed
  infer_instance

/-- The graph holds the commits of the instructions that were modelled. -/
lemma Built.committed_iff {V : Prop} {window : List RiscvInstruction}
    (h : Built V insts window rest s) {k : ℕ} :
    Committed s k ↔ 0 < k ∧ k ≤ insts.length := by
  constructor
  · rintro ⟨u, hu, e, he, rfl, -⟩
    exact (h.good.child u (h.good.keys u hu) e he).1.instSeq_mem h.numbered
  · rintro ⟨hpos, hle⟩
    obtain ⟨inst, hi, rfl⟩ := h.numbered.exists_instSeq hpos hle
    have hown : Owned insts (completeStage inst) := .of_mem hi completeStage_mem
    have hedge := h.hasNext _ hown _ nextStage_completeStage
    exact ⟨_, h.good.mem_keys_of_mem_children h.numbered hown (List.mem_map_of_mem hedge), _, hedge,
      rfl, rfl⟩

section Calls

variable {call : O3Graph}

/-- Calls that were made stay recorded. -/
def Recorded (call : O3Graph) {α : Type} (x : RunM α) : Prop :=
  ∀ st, call ∈ st.calls →
    x.wp (fun _ st' => call ∈ st'.calls) (fun _ st' => call ∈ st'.calls) st

lemma Recorded.lift {α : Type} (x : DegM α) : Recorded call (RunM.lift x) := by
  intro st h
  rw [wp_lift, Exec.wp_last_iff (I := fun _ => call ∈ st.calls)]
  exact h

lemma Recorded.bind {α β : Type} {x : RunM α} {f : α → RunM β} (hx : Recorded call x)
    (hf : ∀ a, Recorded call (f a)) : Recorded call (x >>= f) := by
  intro st h
  rw [Exec.wp_bind]
  exact (hx st h).mono (fun a st' h' => hf a st' h') fun _ _ h' => h'

lemma Recorded.pure {α : Type} (a : α) : Recorded call (pure a : RunM α) := fun _ h => h

lemma Recorded.analyzeWhen (c : Prop) [Decidable c] (fuel : ℕ) :
    Recorded call (analyzeWhen c fuel) := by
  unfold Deg.analyzeWhen
  split_ifs
  · refine .bind (fun st h => ?_) fun _ => .bind (.lift _) fun _ => .pure _
    exact List.mem_cons_of_mem _ h
  · exact .pure _

lemma Recorded.runStep (w fuel : ℕ) : Recorded call (runStep w fuel) := by
  refine .bind (.lift _) fun inst => .bind (.lift _) fun _ => .bind (.analyzeWhen _ _) fun _ => ?_
  cases inst with
  | none      => exact .bind (.analyzeWhen _ _) fun _ => .pure _
  | some inst => exact .bind (.lift _) fun _ => .pure _

lemma Recorded.runLoop (w fuel n : ℕ) : Recorded call (runLoop w fuel n) := by
  induction n with
  | zero => exact fun _ h => h
  | succ n ih =>
    refine .bind (.runStep w fuel) fun goOn => ?_
    cases goOn with
    | true  => exact ih
    | false => exact .pure _

/-- The iteration that reads the last instruction of a window. -/
lemma runStep_full {line : TraceLine} (st : RunState)
    (h : Built False insts insts (line :: rest) st.o3) (hw : (insts.length + 1) % w = 0)
    (fuel : ℕ) :
    (runStep w fuel).wp
      (fun _ st' => { st.o3 with instStream := ⟨rest, insts.length + 1⟩ } ∈ st'.calls)
      (fun _ st' => { st.o3 with instStream := ⟨rest, insts.length + 1⟩ } ∈ st'.calls) st := by
  have hyes : 0 < insts.length + 1 ∧ (insts.length + 1) % w = 0 := ⟨Nat.succ_pos _, hw⟩
  rw [runStep, Exec.wp_bind, Exec.wp_iff_of_run (RunM.lift_run (nextInst_run h)), Exec.wp_bind,
    Exec.wp_iff_of_run (RunM.lift_run (getInstSeq_run _)), analyzeWhen, if_pos hyes,
    callAnalyzeWindow, Exec.wp_bind, Exec.wp_bind, Exec.wp_modify]
  -- the call has been recorded, and what follows keeps it
  have hrest : Recorded { st.o3 with instStream := ⟨rest, insts.length + 1⟩ } (do
      let _ ← RunM.lift (analyzeWindow fuel)) := .bind (.lift _) fun _ => .pure _
  refine (hrest _ List.mem_cons_self).mono (fun _ st₁ h₁ => ?_) fun _ _ h₁ => h₁
  exact Recorded.bind (.lift _) (fun _ => .pure _) st₁ h₁

/-- The call at the end of the first window is made before its last instruction is modelled. -/
lemma run_of_le_length (hpos : 0 < w) (hle : w ≤ trace.length) (fuel : ℕ) :
    ∃ s ∈ (run w fuel trace).2.calls, s.instStream.instSeq = w ∧ ¬Committed s w := by
  obtain ⟨k, rfl⟩ : ∃ k, w = k + 1 := ⟨w - 1, by omega⟩
  obtain ⟨m, hm⟩ : ∃ m, trace.length = k + m + 1 := ⟨trace.length - k - 1, by omega⟩
  obtain ⟨s, -, hb, hrun⟩ := runLoop_inside (w := k + 1) { o3 := .init trace } (.init trace)
    (show k ≤ trace.length by omega) (by simp) fuel (m + 2)
  have hlen : (readAll [] (trace.take k)).length = k := by
    rw [length_readAll, List.length_take, List.length_nil]
    omega
  cases hdrop : trace.drop k with
  | nil =>
    rw [List.drop_eq_nil_iff] at hdrop
    omega
  | cons line rest =>
    rw [hdrop] at hb
    refine ⟨{ s with instStream := ⟨rest, k + 1⟩ }, ?_, rfl, ?_⟩
    · have hn : trace.length + 1 = k + (m + 2) := by omega
      have hstep := runStep_full (w := k + 1) { o3 := s } hb (by rw [hlen, Nat.mod_self]) fuel
      rw [hlen] at hstep
      rw [run, hn, hrun]
      refine (Exec.wp_last_iff (I := fun st : RunState => _ ∈ st.calls)).mp ?_
      rw [runLoop, Exec.wp_bind]
      refine hstep.mono (fun goOn st₁ h₁ => ?_) fun _ _ h₁ => h₁
      cases goOn with
      | true  => exact Recorded.runLoop _ _ _ st₁ h₁
      | false => exact h₁
    · intro hcommitted
      have := (hb.committed_iff.mp hcommitted).2
      omega

end Calls

/-- Every analysis of a run finds the commit of the instruction that was read last, and the last
analysis sees the whole trace, exactly if the trace is shorter than the window. -/
theorem run_windows_iff (w : ℕ) (hw : 0 < w) (trace : List TraceLine) (hne : trace ≠ [])
    (fuel : ℕ) :
    ((∀ s ∈ (run w fuel trace).2.calls, Committed s s.instStream.instSeq) ∧
      ∃ s, (run w fuel trace).2.calls.head? = some s ∧
        ∀ k, 0 < k → k ≤ trace.length → Committed s k) ↔
    trace.length < w := by
  constructor
  · rintro ⟨hsink, -⟩
    by_contra hle
    obtain ⟨s, hs, hseq, hno⟩ := run_of_le_length hw (not_lt.mp hle) fuel
    have hyes := hsink s hs
    rw [hseq] at hyes
    exact hno hyes
  · intro hlt
    obtain ⟨s, -, hb, hrun⟩ := run_of_length_lt hne hlt fuel
    have hlen : (readAll [] trace).length = trace.length := by
      rw [length_readAll, List.length_nil, Nat.zero_add]
    have hall (k : ℕ) (hpos : 0 < k) (hk : k ≤ trace.length) : Committed s k :=
      hb.committed_iff.mpr ⟨hpos, hlen ▸ hk⟩
    rw [hrun]
    refine ⟨fun s' hs' => ?_, s, rfl, hall⟩
    rw [List.mem_singleton.mp hs', hb.stream_eq]
    exact hb.committed_iff.mpr ⟨hlen ▸ List.length_pos_iff.mpr hne, le_rfl⟩

/-- An addition that is fetched in cycle `t` and committed seven cycles later. -/
def addAt (t : UInt64) (src : List Int) (dst : Int) : TraceLine where
  fetchCacheLine := t
  processCacheCompletion := t + 1
  fetch := t + 1
  decodeSortInsts := t + 2
  decode := t + 2
  renameSortInsts := t + 3
  blockFromRob := t + 3
  blockFromRf := t + 3
  blockFromIq := t + 3
  blockFromLq := t + 3
  blockFromSq := t + 3
  rename := t + 3
  dispatch := t + 4
  insertReadyList := t + 4
  issue := t + 5
  memory := 0
  complete := t + 6
  completeMemory := 0
  commitHead := t + 7
  commit := t + 7
  inst := "add"
  instType := .intAlu
  pc := 65536
  src := src
  dst := dst
  rob := -1
  lq := -1
  sq := -1
  iq := -1
  fu := -1

/-- Two additions in a window of three. -/
theorem run_windows_iff_two :
    0 < 3 ∧ (∀ s ∈ (run 3 0 [addAt 1 [1] 5, addAt 3 [5] 6]).2.calls,
      Committed s s.instStream.instSeq) :=
  ⟨by decide, ((run_windows_iff 3 (by decide) [addAt 1 [1] 5, addAt 3 [5] 6] (by simp) 0).mpr
    (by decide)).1⟩

/-- Three additions in a window of three: the analysis looks for the commit of the third one before
it has been modelled. -/
theorem run_window_full :
    (run 3 100 [addAt 1 [1] 5, addAt 3 [5] 6, addAt 5 [6] 7]).1 = .error (.noSink 3) ∧
    ∃ s ∈ (run 3 100 [addAt 1 [1] 5, addAt 3 [5] 6, addAt 5 [6] 7]).2.calls,
      s.instStream.instSeq = 3 ∧ ¬Committed s 3 := by
  decide +kernel

end ArchExplorer.Deg
