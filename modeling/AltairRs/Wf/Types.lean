import Mathlib.Data.List.AList
import AltairRs.Wf.Traits

/-!
# Pattern inputs and outputs

The payload types of the patterns and the checks they make on entry. A hash map
is an association list with unique keys, in the order the map iterates them.
-/

namespace AltairRs.Wf

variable {I O : Type}

/-- How a pattern reacts when a step reports failure. -/
inductive FailureStrategy where
  | continue
  | failFast
deriving DecidableEq, Repr, Inhabited

/-- The parameters of one combination, or the value lists of all of them. -/
abbrev Parameters (α : Type) := AList fun _ : String => α

/-- Turns the template, the item, and the loop position into a concrete input. -/
abbrev Substitutor (I : Type) := I → String → Nat → Parameters String → I

/-- Input of the sequential pattern. -/
structure PipelineInput (I : Type) where
  tasks : List I
  stopOnError : Bool := false
  cleanup : Bool := false

/-- Input of the parallel pattern; a cap of zero is no cap. -/
structure ParallelInput (I : Type) where
  tasks : List I
  failureStrategy : FailureStrategy := .continue
  maxInFlight : Nat := 0

/-- Input of the loop: one call for each item. -/
structure LoopInput (I : Type) where
  items : List String
  template : I
  parallel : Bool := false
  failureStrategy : FailureStrategy := .continue
  maxInFlight : Nat := 0

/-- Input of the parameterized loop: one call for each combination. -/
structure ParameterizedLoopInput (I : Type) where
  parameters : Parameters (List String)
  template : I
  parallel : Bool := false
  failureStrategy : FailureStrategy := .continue
  maxInFlight : Nat := 0

/-- The per-task check of the pipeline and the parallel pattern. -/
def validateTasks [TaskInput I] (tasks : List I) : Result Unit :=
  forM tasks.zipIdx fun (task, i) =>
    (TaskInput.validate task).mapError fun e => .invalidInput s!"task[{i}]: {e}"

/-- The template check of both loops. -/
def validateTemplate [TaskInput I] (template : I) : Result Unit :=
  (TaskInput.validate template).mapError fun e => .invalidInput s!"template: {e}"

/-- `PipelineInput::validate`. -/
def PipelineInput.validate [TaskInput I] (input : PipelineInput I) : Result Unit := do
  if input.tasks.isEmpty then
    .error (.invalidInput "pipeline tasks must be non-empty")
  validateTasks input.tasks

/-- `ParallelInput::validate`. -/
def ParallelInput.validate [TaskInput I] (input : ParallelInput I) : Result Unit := do
  if input.tasks.isEmpty then
    .error (.invalidInput "parallel tasks must be non-empty")
  validateTasks input.tasks

/-- `LoopInput::validate`. -/
def LoopInput.validate [TaskInput I] (input : LoopInput I) : Result Unit := do
  if input.items.isEmpty then
    .error (.invalidInput "loop items must be non-empty")
  validateTemplate input.template

/-- `ParameterizedLoopInput::validate`. -/
def ParameterizedLoopInput.validate [TaskInput I] (input : ParameterizedLoopInput I) :
    Result Unit := do
  if input.parameters.entries.isEmpty then
    .error (.invalidInput "parameterized loop parameters must be non-empty")
  forM input.parameters.entries fun entry =>
    if entry.2.isEmpty then
      .error (.invalidInput s!"parameter '{entry.1}' value list must be non-empty")
    else .ok ()
  validateTemplate input.template

/-- What an aggregation loop accumulates: the outputs in order, the two counts,
and the position and reason of every failure. -/
structure Tally (O : Type) where
  results : List O := []
  totalSuccess : Nat := 0
  totalFailed : Nat := 0
  failedIndices : List Nat := []
  failureReasons : List String := []
deriving DecidableEq, Repr

/-- Aggregated result of a pipeline run. -/
abbrev PipelineOutput (O : Type) := Tally O

/-- Aggregated result of a parallel run. -/
abbrev ParallelOutput (O : Type) := Tally O

/-- Aggregated result of the iterations of a loop. -/
abbrev LoopAggregate (O : Type) := Tally O

/-- Aggregated result of a loop. -/
structure LoopOutput (O : Type) extends Tally O where
  itemCount : Nat
deriving DecidableEq, Repr

/-- What the pattern says of an output that failed. -/
def failureReason [TaskOutput O] (out : O) : String :=
  (TaskOutput.error out).getD "task reported failure"

/-- One turn of an aggregation loop, at position `i`: count the outcome, and stop
at a failure when asked to. -/
def Tally.record [TaskOutput O] (stop : Bool) (tally : Tally O) (i : Nat) :
    Result O → Result (Tally O)
  | .ok out =>
      if TaskOutput.isSuccess out then
        .ok { tally with
          results := tally.results ++ [out]
          totalSuccess := tally.totalSuccess + 1 }
      else if stop then
        .error (.patternStopped (toString i) (failureReason out))
      else
        .ok { tally with
          results := tally.results ++ [out]
          totalFailed := tally.totalFailed + 1
          failedIndices := tally.failedIndices ++ [i]
          failureReasons := tally.failureReasons ++ [failureReason out] }
  | .error e =>
      if stop then
        .error (.patternStopped (toString i) (toString e))
      else
        .ok { tally with
          totalFailed := tally.totalFailed + 1
          failedIndices := tally.failedIndices ++ [i]
          failureReasons := tally.failureReasons ++ [toString e] }

/-- The aggregation loop from position `i` on. -/
def aggregate [TaskOutput O] (stop : Bool) (i : Nat) (tally : Tally O) :
    List (Result O) → Result (Tally O)
  | [] => .ok tally
  | outcome :: rest => do
      let tally ← tally.record stop i outcome
      aggregate stop (i + 1) tally rest

end AltairRs.Wf
