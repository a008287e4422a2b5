import Mathlib.Data.List.AList
import Mathlib.Data.String.Basic
import AltairRs.Concurrent.Runtime
import AltairRs.Data.Ordered

/-!
# Concurrent execution

The task map and the two executors. Both spawn every task into one set and drain
it through `nextOutcome`. Their loops have a fuel here; `none` means that it ran
out, which it does not when it exceeds the number of tasks.
-/

namespace AltairRs.Concurrent

open Effect Keyed

variable {T E : Type}

/-- `altair_concurrent::Error`; `E` is the boxed error of a task. -/
inductive Error (E : Type) where
  | taskFailed (name : String) (source : E)
  | cancelled
  | timeout
  | join (source : JoinError)
deriving DecidableEq, Repr

/-- The crate's result alias. -/
abbrev Result (E α : Type) := Except (Error E) α

/-- A set of named tasks, in the order of their names. -/
abbrev TaskMap (T E : Type) := OrderedMap String (TaskFn T E)

namespace TaskMap

/-- `TaskMap::new`. -/
def new : TaskMap T E := OrderedMap.empty

/-- `TaskMap::len`. -/
def len (map : TaskMap T E) : Nat := map.entries.length

end TaskMap

/-- The fail-fast executor. -/
structure Executor (T E : Type) where
  tasks : TaskMap T E
  cancellation : Option Nat := none
  timeout : Option Nat := none

/-- The partial-results executor. -/
structure PartialExecutor (T E : Type) where
  tasks : TaskMap T E
  cancellation : Option Nat := none
  timeout : Option Nat := none

/-- `execute_concurrently`. -/
def executeConcurrently (tasks : TaskMap T E) : Executor T E := { tasks }

namespace Executor

/-- `Executor::with_cancellation`. -/
def withCancellation (executor : Executor T E) (token : Nat) : Executor T E :=
  { executor with cancellation := some token }

/-- `Executor::with_timeout`. -/
def withTimeout (executor : Executor T E) (timeout : Nat) : Executor T E :=
  { executor with timeout := some timeout }

/-- `Executor::with_partial_results`. -/
def withPartialResults (executor : Executor T E) : PartialExecutor T E where
  tasks := executor.tasks
  cancellation := executor.cancellation
  timeout := executor.timeout

end Executor

/-- `PartialExecutor::with_cancellation`. -/
def PartialExecutor.withCancellation (executor : PartialExecutor T E) (token : Nat) :
    PartialExecutor T E :=
  { executor with cancellation := some token }

/-- Per-task results under their names. -/
abbrev PartialResults (T E : Type) := AList fun _ : String => Except E T

/-- `cancellation.unwrap_or_default()`. -/
def tokenOrDefault (cancellation : Option Nat) : RuntimeProgram T E Nat :=
  match cancellation with
  | some token => return token
  | none => newToken

/-- The loop of `spawn_tasks`. -/
def spawnAll (set token : Nat) : List (String × TaskFn T E) → RuntimeProgram T E Unit
  | [] => return ()
  | (name, task) :: rest => do
      spawn set { name, task, token }
      spawnAll set token rest

/-- `spawn_tasks`. -/
def spawnTasks (tasks : TaskMap T E) (token : Nat) : RuntimeProgram T E Nat := do
  let set ← newSet
  spawnAll set token tasks.entries
  return set

/-- What `next_outcome` makes of a join. -/
def outcomeOf (raw : Option (Except JoinError (TaskOutcome T E))) :
    Result E (Option (TaskOutcome T E)) :=
  match raw with
  | none => .ok none
  | some (.ok outcome) => .ok (some outcome)
  | some (.error e) => .error (.join e)

/-- `next_outcome`. -/
def nextOutcome (set token : Nat) (timeout : Option Nat) :
    RuntimeProgram T E (Result E (Option (TaskOutcome T E))) :=
  match timeout with
  | some duration => do
      match ← joinNextTimeout set duration with
      | some raw => return outcomeOf raw
      | none =>
          cancel token
          shutdown set
          return .error .timeout
  | none => do
      let raw ← joinNext set
      return outcomeOf raw

/-- `token.is_cancelled() && set.is_empty()`. -/
def cancelledAndEmpty (set token : Nat) : RuntimeProgram T E Bool := do
  if ← isCancelled token then
    isEmpty set
  else
    return false

/-- The loop of `run_fail_fast`. -/
def failFastLoop (set token : Nat) (timeout : Option Nat) :
    Nat → (AList fun _ : String => T) →
      RuntimeProgram T E (Option (Result E (AList fun _ : String => T)))
  | 0, _ => return none
  | fuel + 1, results => do
      match ← nextOutcome set token timeout with
      | .error e => return some (.error e)
      | .ok none => return some (.ok results)
      | .ok (some (name, .ok v)) => do
          let results := results.insert name v
          if ← cancelledAndEmpty set token then
            return some (.error .cancelled)
          else
            failFastLoop set token timeout fuel results
      | .ok (some (name, .error e)) => do
          cancel token
          shutdown set
          return some (.error (.taskFailed name e))

/-- `run_fail_fast`. -/
def runFailFast (fuel : Nat) (executor : Executor T E) :
    RuntimeProgram T E (Option (Result E (AList fun _ : String => T))) := do
  let token ← tokenOrDefault executor.cancellation
  let set ← spawnTasks executor.tasks token
  failFastLoop set token executor.timeout fuel ∅

/-- The loop of `run_partial`. -/
def partialLoop (set token : Nat) (timeout : Option Nat) :
    Nat → PartialResults T E → RuntimeProgram T E (Option (Result E (PartialResults T E)))
  | 0, _ => return none
  | fuel + 1, results => do
      match ← nextOutcome set token timeout with
      | .error e => return some (.error e)
      | .ok none => return some (.ok results)
      | .ok (some (name, result)) =>
          partialLoop set token timeout fuel (results.insert name result)

/-- `run_partial`. -/
def runPartial (fuel : Nat) (executor : PartialExecutor T E) :
    RuntimeProgram T E (Option (Result E (PartialResults T E))) := do
  let token ← tokenOrDefault executor.cancellation
  let set ← spawnTasks executor.tasks token
  partialLoop set token executor.timeout fuel ∅

end AltairRs.Concurrent
