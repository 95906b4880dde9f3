import ArchExplorer.Deg.Analyze

/-!
# The main loop

`run` reads the trace, models every instruction and analyzes the graph whenever the number of
instructions that were read is a multiple of the window, and at the end of the trace otherwise.
-/

namespace ArchExplorer.Deg

open ArchExplorer.Lib

/-- `WINDOW`. -/
def window : ℕ := 10000000

/-- Read the next instruction. -/
def nextInst : DegM (Option RiscvInstruction) :=
  Exec.modifyGet fun s => (s.instStream.next.1, { s with instStream := s.instStream.next.2 })

/-- Model an instruction that was read. -/
def modelInst (inst : RiscvInstruction) : DegM Unit := do
  model inst
  modelInteraction inst

/-- Read and model instructions without analyzing the graph, `n` of them or all that are left. -/
def modelSteps : ℕ → DegM Unit
  | 0     => return ()
  | n + 1 => do
    match ← nextInst with
    | none      => return ()
    | some inst =>
      modelInst inst
      modelSteps n

/-- The state of a run: the graph, and the graphs for which an analysis was started, the last one
first. -/
structure RunState where
  o3 : O3Graph
  calls : List O3Graph := []

/-- Code of the main loop. -/
abbrev RunM := Exec DegError RunState

/-- Run code of the graph builder. -/
def RunM.lift {α : Type} (x : DegM α) : RunM α :=
  ⟨fun s => ((x.run s.o3).1, { s with o3 := (x.run s.o3).2 })⟩

/-- A call of `analyze_window`. -/
def callAnalyzeWindow (fuel : ℕ) : RunM Unit := do
  Exec.modify fun s => { s with calls := s.o3 :: s.calls }
  let _ ← RunM.lift (analyzeWindow fuel)

/-- A call of `analyze_window` under a condition. -/
def analyzeWhen (c : Prop) [Decidable c] (fuel : ℕ) : RunM Unit :=
  if c then callAnalyzeWindow fuel else return ()

/-- One iteration. The result tells whether the loop goes on. -/
def runStep (window fuel : ℕ) : RunM Bool := do
  let inst ← RunM.lift nextInst
  let instSeq ← RunM.lift getInstSeq
  analyzeWhen (0 < instSeq ∧ instSeq % window = 0) fuel
  match inst with
  | none      =>
    analyzeWhen (instSeq % window ≠ 0) fuel
    return false
  | some inst =>
    RunM.lift (modelInst inst)
    return true

def runLoop (window fuel : ℕ) : ℕ → RunM Unit
  | 0     => Exec.throw .outOfFuel
  | n + 1 => do
    if ← runStep window fuel then
      runLoop window fuel n

/-- The run on a trace. It reads every line and then the end of the trace. -/
def run (window fuel : ℕ) (trace : List TraceLine) : Except DegError Unit × RunState :=
  (runLoop window fuel (trace.length + 1)).run { o3 := .init trace }

end ArchExplorer.Deg
