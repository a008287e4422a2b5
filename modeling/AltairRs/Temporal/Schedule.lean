import AltairRs.Effect.Program

/-!
# Schedules

The two schedule builders and their terminal calls. A schedule is created with
all its fields, and updated by a closure: the client asks for the stored one,
applies the closure and sends the result back. Every request may fail for any
reason.
-/

namespace AltairRs.Temporal.Schedule

open Effect

/-- `altair_temporal::Error`, as far as schedules go. -/
inductive Error where
  | configuration (message : String)
  | schedule (source : String)
deriving DecidableEq, Repr

/-- The crate's result alias. -/
abbrev Result (α : Type) := Except Error α

/-- An interval of the SDK's spec; the offset is never set. Durations count nanoseconds. -/
structure ScheduleIntervalSpec where
  every : Nat
  offset : Option Nat
deriving DecidableEq, Repr

/-- The SDK's spec, with the fields that are set; every other field keeps its default. -/
structure ScheduleSpec where
  cronStrings : List String
  intervals : List ScheduleIntervalSpec
  timezoneName : String
deriving DecidableEq, Repr

/-- What both builders share. -/
structure SpecParts where
  cronStrings : List String := []
  intervals : List Nat := []
  timezone : Option String := none
  note : Option String := none
  paused : Bool := false
deriving DecidableEq, Repr

/-- `SpecParts::to_spec`. -/
def SpecParts.toSpec (parts : SpecParts) : ScheduleSpec where
  cronStrings := parts.cronStrings
  intervals := parts.intervals.map fun every => ⟨every, none⟩
  timezoneName := parts.timezone.getD ""

/-- `SpecParts::has_trigger`. -/
def SpecParts.hasTrigger (parts : SpecParts) : Bool :=
  !parts.cronStrings.isEmpty || !parts.intervals.isEmpty

/-- Start a workflow by its type name, with the input it is to receive. -/
structure ScheduleAction (Input : Type) where
  workflowType : String
  taskQueue : String
  workflowId : String
  input : Option Input
deriving DecidableEq, Repr

/-- `CreateScheduleOptions`. -/
structure CreateScheduleOptions (Input : Type) where
  action : ScheduleAction Input
  spec : ScheduleSpec
  paused : Bool
  note : String
deriving DecidableEq, Repr

/-- What the server stores of a schedule, and what an update closure receives. -/
structure StoredSchedule (Input : Type) where
  action : ScheduleAction Input
  spec : ScheduleSpec
  paused : Bool
  note : String
deriving DecidableEq, Repr

section Setters

variable {Input : Type} (stored : StoredSchedule Input)

def StoredSchedule.setSpec (spec : ScheduleSpec) : StoredSchedule Input :=
  { stored with spec := spec }

def StoredSchedule.setPaused (paused : Bool) : StoredSchedule Input :=
  { stored with paused := paused }

def StoredSchedule.setNote (note : String) : StoredSchedule Input :=
  { stored with note := note }

end Setters

/-- The requests of the client. An update names what the schedule was described as, and what
it is to be. -/
inductive ScheduleOp (Input : Type) where
  | createSchedule (id : String) (options : CreateScheduleOptions Input)
  | describe (id : String)
  | update (id : String) (described changed : StoredSchedule Input)

/-- A failure is its text. -/
abbrev scheduleSignature (Input : Type) : Signature where
  Op := ScheduleOp Input
  Response
    | .createSchedule .. | .update .. => Except String Unit
    | .describe _ => Except String (StoredSchedule Input)

abbrev ScheduleProgram (Input α : Type) := Program (scheduleSignature Input) α

variable {Input : Type}

/-- `client.create_schedule`, with its error wrapped. -/
def createSchedule (id : String) (options : CreateScheduleOptions Input) :
    ScheduleProgram Input (Result Unit) :=
  Except.mapError Error.schedule <$>
    Program.perform (scheduleSignature Input) (.createSchedule id options)

/-- The closure of an update: an unset note leaves the stored one. -/
def specUpdate (parts : SpecParts) (stored : StoredSchedule Input) : StoredSchedule Input :=
  let stored := (stored.setSpec parts.toSpec).setPaused parts.paused
  match parts.note with
  | some note => stored.setNote note
  | none => stored

/-- `handle.update`: the client describes the schedule, and sends back what the closure makes
of it. -/
def handleUpdate (id : String) (change : StoredSchedule Input → StoredSchedule Input) :
    ScheduleProgram Input (Except String Unit) := do
  match ← Program.perform (scheduleSignature Input) (.describe id) with
  | .error text => return .error text
  | .ok described =>
      Program.perform (scheduleSignature Input) (.update id described (change described))

/-- `apply_spec_update`. -/
def applySpecUpdate (id : String) (parts : SpecParts) : ScheduleProgram Input (Result Unit) :=
  Except.mapError Error.schedule <$> handleUpdate id (specUpdate parts)

/-- The payloads of an input, encoded as JSON. -/
structure Payload where
  encoding : String
  data : List UInt8
deriving DecidableEq, Repr

/-- `ScheduleBuilder`, which wraps the `Schedule` it builds. -/
structure ScheduleBuilder where
  spec : SpecParts := {}
  workflowType : Option String := none
  taskQueue : Option String := none
  workflowId : Option String := none
  inputPayloads : Option (List Payload) := none
deriving DecidableEq, Repr

/-- `validate_schedule`. -/
def validateSchedule (builder : ScheduleBuilder) : Result Unit :=
  if builder.workflowType.isNone ∨ builder.taskQueue.isNone ∨ builder.workflowId.isNone then
    .error (.configuration
      "schedule requires start_workflow(workflow_type, task_queue, workflow_id)")
  else if ¬ builder.spec.hasTrigger then
    .error (.configuration "schedule requires at least one cron or interval")
  else
    .ok ()

/-- What `to_create_options` expects to be validated above. -/
theorem validateSchedule_isSome {builder : ScheduleBuilder}
    (valid : validateSchedule builder = .ok ()) :
    builder.workflowType.isSome ∧ builder.taskQueue.isSome ∧ builder.workflowId.isSome := by
  unfold validateSchedule at valid
  split at valid
  · cases valid
  · rename_i present
    simpa [not_or, Option.ne_none_iff_isSome] using present

/-- `to_create_options`. -/
def toCreateOptions (builder : ScheduleBuilder) (valid : validateSchedule builder = .ok ()) :
    CreateScheduleOptions (List Payload) :=
  have present := validateSchedule_isSome valid
  { action :=
      { workflowType := builder.workflowType.get present.1
        taskQueue := builder.taskQueue.get present.2.1
        workflowId := builder.workflowId.get present.2.2
        input := builder.inputPayloads }
    spec := builder.spec.toSpec
    paused := builder.spec.paused
    note := builder.spec.note.getD "" }

namespace ScheduleBuilder

variable (builder : ScheduleBuilder)

def cron (expression : String) : ScheduleBuilder :=
  { builder with spec.cronStrings := builder.spec.cronStrings ++ [expression] }

def interval (every : Nat) : ScheduleBuilder :=
  { builder with spec.intervals := builder.spec.intervals ++ [every] }

def timezone (name : String) : ScheduleBuilder :=
  { builder with spec.timezone := some name }

def note (text : String) : ScheduleBuilder :=
  { builder with spec.note := some text }

def paused (isPaused : Bool) : ScheduleBuilder :=
  { builder with spec.paused := isPaused }

def startWorkflow (workflowType taskQueue workflowId : String) : ScheduleBuilder :=
  { builder with
    workflowType := some workflowType
    taskQueue := some taskQueue
    workflowId := some workflowId }

/-- `ScheduleBuilder::create`. -/
def create (id : String) : ScheduleProgram (List Payload) (Result Unit) :=
  match valid : validateSchedule builder with
  | .error e => return .error e
  | .ok () => createSchedule id (toCreateOptions builder valid)

/-- `ScheduleBuilder::update`. -/
def update (id : String) : ScheduleProgram (List Payload) (Result Unit) :=
  match validateSchedule builder with
  | .error e => return .error e
  | .ok () => applySpecUpdate id builder.spec

/-- `ScheduleBuilder::create_or_update`. -/
def createOrUpdate (id : String) : ScheduleProgram (List Payload) (Result Unit) := do
  match ← builder.create id with
  | .ok () => return .ok ()
  | .error (.schedule _) => builder.update id
  | .error other => return .error other

end ScheduleBuilder

/-- `TypedScheduleBuilder`, for a workflow type with this input. -/
structure TypedScheduleBuilder (Input : Type) where
  spec : SpecParts := {}
  taskQueue : Option String := none
  workflowId : Option String := none
  input : Option Input := none
deriving DecidableEq, Repr

namespace TypedScheduleBuilder

variable (builder : TypedScheduleBuilder Input)

/-- `TypedScheduleBuilder::validate`. -/
def validate : Result Unit :=
  if builder.taskQueue.isNone ∨ builder.workflowId.isNone then
    .error (.configuration "typed schedule requires task_queue(...) and workflow_id(...)")
  else if builder.input.isNone then
    .error (.configuration "typed schedule requires input(...)")
  else if ¬ builder.spec.hasTrigger then
    .error (.configuration "schedule requires at least one cron or interval")
  else
    .ok ()

variable {builder} in
/-- What `into_create_options` expects to be validated. -/
theorem validate_isSome (valid : builder.validate = .ok ()) :
    builder.taskQueue.isSome ∧ builder.workflowId.isSome ∧ builder.input.isSome := by
  unfold validate at valid
  split at valid
  · cases valid
  · rename_i present
    split at valid
    · cases valid
    · rename_i hasInput
      simp only [not_or, Bool.not_eq_true, Option.isNone_eq_false_iff] at present hasInput
      exact ⟨present.1, present.2, hasInput⟩

/-- `TypedScheduleBuilder::into_create_options`; the name is that of the workflow type. -/
def intoCreateOptions (workflowType : String) (valid : builder.validate = .ok ()) :
    CreateScheduleOptions Input :=
  have present := validate_isSome valid
  { action :=
      { workflowType := workflowType
        taskQueue := builder.taskQueue.get present.1
        workflowId := builder.workflowId.get present.2.1
        input := builder.input }
    spec := builder.spec.toSpec
    paused := builder.spec.paused
    note := builder.spec.note.getD "" }

/-- `TypedScheduleBuilder::create`. -/
def create (workflowType id : String) : ScheduleProgram Input (Result Unit) :=
  match valid : builder.validate with
  | .error e => return .error e
  | .ok () => createSchedule id (builder.intoCreateOptions workflowType valid)

/-- `TypedScheduleBuilder::update`. -/
def update (id : String) : ScheduleProgram Input (Result Unit) :=
  if ¬ builder.spec.hasTrigger then
    return .error (.configuration "schedule requires at least one cron or interval")
  else
    applySpecUpdate id builder.spec

/-- `TypedScheduleBuilder::create_or_update`: the fallback skips the check of `update`. -/
def createOrUpdate (workflowType id : String) : ScheduleProgram Input (Result Unit) := do
  match ← builder.create workflowType id with
  | .ok () => return .ok ()
  | .error (.schedule _) => applySpecUpdate id builder.spec
  | .error other => return .error other

end TypedScheduleBuilder

/-- The error of a call to delete a schedule: a `NOT_FOUND` status, or any other. -/
structure RpcError where
  isNotFound : Bool
  message : String
deriving DecidableEq, Repr

/-- The call to the handle of a schedule. -/
inductive DeleteOp where
  | delete (id : String)
deriving DecidableEq, Repr

abbrev deleteSignature : Signature where
  Op := DeleteOp
  Response _ := Except RpcError Unit

abbrev DeleteProgram (α : Type) := Program deleteSignature α

/-- `delete`: every error is wrapped alike. -/
def delete (id : String) : DeleteProgram (Result Unit) :=
  Except.mapError (fun e => Error.schedule e.message) <$>
    Program.perform deleteSignature (.delete id)

/-- `delete_if_exists`. -/
def deleteIfExists (id : String) : DeleteProgram (Result Unit) := do
  match ← delete id with
  | .ok () => return .ok ()
  | .error (.schedule _) => return .ok ()
  | .error other => return .error other

end AltairRs.Temporal.Schedule
