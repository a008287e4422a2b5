import AltairRs.Wf.Function.Registry

/-!
# The activity that runs named handlers

`executeFunction` checks the name, looks the handler up, and runs it. An input that
fails the check and a name without a handler fail the activity, with failures that are
not retried; what the handler does, a panic included, is reported in the output. The
heartbeats sent while the handler runs are left out: their answers are ignored.
-/

namespace AltairRs.Wf.Function

open Effect

variable {H : Type}

/-- What a handler ends with. An error whose `Display` panics has no text, and neither
has a panic whose payload is no string. -/
inductive HandlerResult where
  | ok (output : FunctionOutput)
  | failed (display : Option String)
  | panicked (payload : Option String)

def HandlerResult.isOk : HandlerResult → Bool
  | .ok _ => true
  | .failed _ | .panicked _ => false

/-- `render_handler_error`. -/
def renderHandlerError (display : Option String) : String :=
  display.getD "<handler error: Display impl panicked>"

/-- `render_panic`. -/
def renderPanic : Option String → String
  | some payload => s!"handler panicked: {payload}"
  | none => "handler panicked: <non-string payload>"

/-- The calls of the activity: clocks, the registry, and a handler. -/
inductive ActivityOp (H : Type) where
  | now
  | elapsed (since : Nat)
  | systemTime
  | get (name : String)
  | call (handler : H) (input : FunctionInput)

/-- An instant and a duration count nanoseconds. The system time counts milliseconds
since the epoch, unless it is before the epoch. -/
abbrev activitySignature (H : Type) : Signature where
  Op := ActivityOp H
  Response
    | .now | .elapsed _ => Nat
    | .systemTime => Option Nat
    | .get _ => Result H
    | .call .. => HandlerResult

abbrev ActivityProgram (H α : Type) := Program (activitySignature H) α

def now : ActivityProgram H Nat := Program.perform (activitySignature H) .now

def elapsed (since : Nat) : ActivityProgram H Nat :=
  Program.perform (activitySignature H) (.elapsed since)

def systemTime : ActivityProgram H (Option Nat) :=
  Program.perform (activitySignature H) .systemTime

def getHandler (name : String) : ActivityProgram H (Result H) :=
  Program.perform (activitySignature H) (.get name)

def call (handler : H) (input : FunctionInput) : ActivityProgram H HandlerResult :=
  Program.perform (activitySignature H) (.call handler input)

/-- `u64::try_from(value).unwrap_or(u64::MAX)`. -/
def saturatedU64 (value : Nat) : UInt64 :=
  if value < UInt64.size then UInt64.ofNat value else UInt64.ofNat (UInt64.size - 1)

/-- `unix_millis`, of the answer of the clock. -/
def unixMillis (sinceEpoch : Option Nat) : UInt64 :=
  sinceEpoch.elim 0 saturatedU64

/-- When the handler ran. -/
structure Timing where
  finished : Nat
  startedAtMillis : UInt64
  finishedAtMillis : UInt64

/-- The output the activity makes of what the handler ended with. -/
def reported (name : String) (timing : Timing) (result : HandlerResult) :
    FunctionExecutionOutput where
  name
  success := result.isOk
  error := match result with
    | .ok _ => ""
    | .failed display => renderHandlerError display
    | .panicked payload => renderPanic payload
  result := match result with
    | .ok output => output.result
    | .failed _ | .panicked _ => ∅
  data := match result with
    | .ok output => output.data
    | .failed _ | .panicked _ => []
  duration := timing.finished
  elapsedNanos := saturatedU64 timing.finished
  startedAtMillis := timing.startedAtMillis
  finishedAtMillis := timing.finishedAtMillis

/-- An application failure of the SDK. -/
structure ApplicationFailure where
  message : String
  typeName : String
  nonRetryable : Bool
deriving DecidableEq, Repr

/-- `FunctionActivities::execute_function`. -/
def executeFunction [DebugText String] (input : FunctionExecutionInput) :
    ActivityProgram H (Except ApplicationFailure FunctionExecutionOutput) := do
  let started ← now
  let startedAt ← systemTime
  match input.validate with
  | .error e => return .error ⟨toString e, "InvalidFunctionInput", true⟩
  | .ok _ =>
      match ← getHandler input.name with
      | .error e => return .error ⟨toString e, "FunctionNotFound", true⟩
      | .ok handler =>
          let result ← call handler input.intoFunctionInput
          let finished ← elapsed started
          let finishedAt ← systemTime
          return .ok (reported input.name
            ⟨finished, unixMillis startedAt, unixMillis finishedAt⟩ result)

/-- Handlers stay registered, each under its name. -/
def Grows (map next : Parameters H) : Prop :=
  ∀ name handler, map.lookup name = some handler → next.lookup name = some handler

/-- A map grows to itself. -/
theorem Grows.refl (map : Parameters H) : Grows map map := fun _ _ => id

/-- Growth goes on. -/
theorem Grows.trans {map next last : Parameters H} (first : Grows map next)
    (second : Grows next last) : Grows map last :=
  fun name handler found => second name handler (first name handler found)

/-- A registration lets the map grow. -/
theorem register_grows (map : Parameters H) (name : String) (handler : H) :
    Grows map (register map name handler).2 := by
  intro other found isFound
  by_cases taken : name ∈ map
  · rw [register_of_mem taken]
    exact isFound
  · have different : other ≠ name := by
      rintro rfl
      exact taken (AList.lookup_isSome.mp (isFound ▸ rfl))
    rw [register_of_notMem taken, AList.lookup_insert_ne different]
    exact isFound

/-- Every call of any task lets every map grow. -/
theorem RegistryStep.grows [DebugText String] {maps next : Registries H}
    {event : Event (registrySignature H)} (step : RegistryStep maps event next)
    (registry : Registry) : Grows (maps.inner registry) (next.inner registry) := by
  obtain ⟨operation, response⟩ := event
  obtain ⟨known, answered⟩ := step
  cases operation with
  | new =>
      obtain ⟨-, rfl⟩ := Prod.mk.inj answered
      rw [Registries.inner_concat]
      exact .refl _
  | register on name handler =>
      obtain ⟨-, rfl⟩ := Prod.mk.inj answered
      by_cases same : registry = on
      · subst same
        rw [Registries.inner_set_self (known registry rfl)]
        exact register_grows _ name handler
      · rw [Registries.inner_set_other _ same]
        exact .refl _
  | has on name =>
      obtain ⟨-, rfl⟩ := Prod.mk.inj answered
      exact .refl _
  | get on name =>
      obtain ⟨-, rfl⟩ := Prod.mk.inj answered
      exact .refl _
  | len on =>
      obtain ⟨-, rfl⟩ := Prod.mk.inj answered
      exact .refl _

/-- The world of one activity: the handlers behave as they do, and other tasks may
register more of them at any time. -/
def activityWorld [DebugText String] (behaves : H → FunctionInput → HandlerResult → Prop) :
    World (activitySignature H) (Parameters H) where
  Answers map
    | .now, _, next | .elapsed _, _, next | .systemTime, _, next => Grows map next
    | .get name, answer, next => Grows map next ∧ answer = get next name
    | .call handler input, result, next => Grows map next ∧ behaves handler input result

/-- The handlers an activity called, with their inputs and what they ended with. -/
def callOf : Event (activitySignature H) → Option (H × FunctionInput × HandlerResult)
  | ⟨.call handler input, result⟩ => some (handler, input, result)
  | ⟨.now, _⟩ | ⟨.elapsed _, _⟩ | ⟨.systemTime, _⟩ | ⟨.get _, _⟩ => none

/-- The ways an activity may go, by the handlers it calls. -/
inductive Executed [DebugText String] (behaves : H → FunctionInput → HandlerResult → Prop)
    (map : Parameters H) (input : FunctionExecutionInput) :
    List (H × FunctionInput × HandlerResult) →
      Except ApplicationFailure FunctionExecutionOutput → Prop where
  | refused {e : Error} (isRefused : input.validate = .error e) :
      Executed behaves map input [] (.error ⟨toString e, "InvalidFunctionInput", true⟩)
  | notFound (isValid : Valid input) (isAbsent : map.lookup input.name = none) :
      Executed behaves map input []
        (.error ⟨toString (notFound input.name), "FunctionNotFound", true⟩)
  | ran (isValid : Valid input) {handler : H} {result : HandlerResult} (timing : Timing)
      (isRegistered : ∀ first, map.lookup input.name = some first → handler = first)
      (did : behaves handler input.intoFunctionInput result) :
      Executed behaves map input [(handler, input.intoFunctionInput, result)]
        (.ok (reported input.name timing result))

variable [DebugText String] {behaves : H → FunctionInput → HandlerResult → Prop}
  {map final : Parameters H}
  {input : FunctionExecutionInput} {events : List (Event (activitySignature H))}
  {value : Except ApplicationFailure FunctionExecutionOutput}

/-- What the registry answers once handlers may have been added. -/
theorem get_cases {map next : Parameters H} (grows : Grows map next) (name : String) :
    (get next name = .error (notFound name) ∧ map.lookup name = none) ∨
      ∃ handler, get next name = .ok handler ∧
        ∀ first, map.lookup name = some first → handler = first := by
  unfold get
  cases isLater : next.lookup name with
  | none =>
      refine .inl ⟨rfl, ?_⟩
      cases isFirst : map.lookup name with
      | none => rfl
      | some first => exact absurd (isLater.symm.trans (grows name first isFirst)) nofun
  | some handler =>
      refine .inr ⟨handler, rfl, fun first isFirst => ?_⟩
      exact Option.some_inj.mp (isLater.symm.trans (grows name first isFirst))

/-- Every complete run of the activity goes in one of the three ways. -/
theorem executeFunction_executed
    (run : Returns (activityWorld behaves) (executeFunction input) map events value final) :
    Executed behaves map input (events.filterMap callOf) value := by
  obtain ⟨started, _, _, rfl, grows, run⟩ := Reaches.of_request run
  obtain ⟨startedAt, _, _, rfl, more, run⟩ := Reaches.of_request run
  have sofar := Grows.trans grows more
  cases checked : input.validate with
  | error e =>
      rw [checked] at run
      obtain ⟨rfl, ⟨⟩, -⟩ := run.of_done
      exact .refused checked
  | ok _ =>
      rw [checked] at run
      obtain ⟨found, _, _, rfl, ⟨more, answered⟩, run⟩ := Reaches.of_request run
      rcases get_cases (sofar.trans more) input.name with
        ⟨isMissing, absent⟩ | ⟨handler, isFound, first⟩
      · obtain rfl := answered.trans isMissing
        obtain ⟨rfl, ⟨⟩, -⟩ := run.of_done
        exact .notFound checked absent
      · obtain rfl := answered.trans isFound
        obtain ⟨result, _, _, rfl, ⟨-, did⟩, run⟩ := Reaches.of_request run
        obtain ⟨finished, _, _, rfl, -, run⟩ := Reaches.of_request run
        obtain ⟨finishedAt, _, _, rfl, -, run⟩ := Reaches.of_request run
        obtain ⟨rfl, ⟨⟩, -⟩ := run.of_done
        exact .ran checked _ first did

/-- A valid input with a registered handler can always be run, whatever the handler
ends with. -/
theorem executeFunction_returns {handler : H} {result : HandlerResult} (isValid : Valid input)
    (isHandler : map.lookup input.name = some handler)
    (did : behaves handler input.intoFunctionInput result) :
    ∃ events, Returns (activityWorld behaves) (executeFunction input) map events
      (.ok (reported input.name ⟨0, 0, 0⟩ result)) map := by
  have stays := Grows.refl map
  have found : get map input.name = .ok handler := by
    rw [get, isHandler]
  have isNow : (activityWorld behaves).Answers map .now (0 : Nat) map := stays
  have isTime : (activityWorld behaves).Answers map .systemTime none map := stays
  have isGet : (activityWorld behaves).Answers map (.get input.name) (.ok handler) map :=
    ⟨stays, found.symm⟩
  have isCall : (activityWorld behaves).Answers map (.call handler input.intoFunctionInput)
      result map := ⟨stays, did⟩
  have isElapsed : (activityWorld behaves).Answers map (.elapsed 0) (0 : Nat) map := stays
  have checked : input.validate = .ok () := isValid
  rw [executeFunction, checked]
  exact ⟨_, .step isNow (.step isTime (.step isGet (.step isCall (.step isElapsed
    (.step isTime .refl)))))⟩

end AltairRs.Wf.Function
