import AltairRs.Wf.Error

/-!
# Payload traits

What a pattern may ask of the payloads that flow through it.
-/

namespace AltairRs.Wf

/-- Activity inputs; the default accepts every payload. -/
class TaskInput (I : Type) where
  validate : I → Result Unit := fun _ => .ok ()

/-- Activity outputs; `error` describes a failed one. -/
class TaskOutput (O : Type) where
  isSuccess : O → Bool
  error : O → Option String := fun _ => none

/-- The payload accepts itself. -/
abbrev Valid {I : Type} [TaskInput I] (input : I) : Prop := TaskInput.validate input = .ok ()

/-- The input of the source's own DAG tests, which can refuse itself. -/
structure Task where
  ok : Bool
deriving DecidableEq, Repr

instance : TaskInput Task where
  validate task := if task.ok then .ok () else .error (.invalidInput "task not ok")

/-- The output of the source's own pattern tests. -/
structure StepResult where
  id : Nat
  ok : Bool
  message : String
deriving DecidableEq, Repr

instance : TaskOutput StepResult where
  isSuccess step := step.ok
  error step := if step.ok then none else some step.message

end AltairRs.Wf
