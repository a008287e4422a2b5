import Mathlib.Tactic.Choose
import AltairRs.Wf.Accounting
import AltairRs.Wf.Function.Activity
import AltairRs.Wf.ValidatedInputs

/-!
# Batches of named jobs

A workflow drives the activity with the patterns: every task names the handler that is
to run it. What the output of the pattern says is then about handlers: which of them
returned an output, which failed or panicked, and with which text.
-/

namespace AltairRs.Wf.Function

open Effect

variable {H : Type}

/-- The closure of the workflow: a failed activity is an error of the pattern, with the
text the SDK gives the failure. -/
def outcomeOf (describe : ApplicationFailure → String)
    (value : Except ApplicationFailure FunctionExecutionOutput) :
    Result FunctionExecutionOutput :=
  value.mapError fun failure =>
    .activity "FunctionActivities::execute_function" (describe failure)

/-- Every task got the outcome of a run of the activity, which started with `map` or
later. -/
def Ran [DebugText String] (behaves : H → FunctionInput → HandlerResult → Prop) (map : Parameters H)
    (describe : ApplicationFailure → String)
    (outcome : Job FunctionExecutionInput → Result FunctionExecutionOutput)
    (tasks : List FunctionExecutionInput) : Prop :=
  ∀ job ∈ enumerate tasks, ∃ start events value final, Grows map start ∧
    Returns (activityWorld behaves) (executeFunction job.input) start events value final ∧
    outcome job = outcomeOf describe value

/-- The run of a handler for a task. -/
structure JobRun where
  task : FunctionExecutionInput := {}
  timing : Timing := ⟨0, 0, 0⟩
  result : HandlerResult := .ok {}

instance : Inhabited JobRun := ⟨{}⟩

namespace JobRun

def report (run : JobRun) : FunctionExecutionOutput :=
  reported run.task.name run.timing run.result

/-- The handler registered under the name of the task ran, and ended so. -/
def Handled (behaves : H → FunctionInput → HandlerResult → Prop) (map : Parameters H)
    (run : JobRun) : Prop :=
  ∃ handler, map.lookup run.task.name = some handler ∧
    behaves handler run.task.intoFunctionInput run.result

end JobRun

/-- Why the run of a handler counts as a failure: the text of its error, unless it is
empty or its `Display` panics, or the payload of its panic, if it is a text. -/
def JobRun.reason (run : JobRun) : Option String :=
  match run.result with
  | .ok _ => none
  | .failed none => some "<handler error: Display impl panicked>"
  | .failed (some text) => some (if text = "" then "task reported failure" else text)
  | .panicked none => some "handler panicked: <non-string payload>"
  | .panicked (some payload) => some ("handler panicked: " ++ payload)

/-- What the output of a batch says of the handlers: each ran for its task, their
outputs are in the order of the tasks, and the failures are those handlers that did
not return an output, each under its position with its own reason. -/
structure BatchOf (behaves : H → FunctionInput → HandlerResult → Prop) (map : Parameters H)
    (tasks : List FunctionExecutionInput) (runs : List JobRun)
    (tally : Tally FunctionExecutionOutput) : Prop where
  ofTasks : runs.map JobRun.task = tasks
  handled : ∀ run ∈ runs, run.Handled behaves map
  results : tally.results = runs.map JobRun.report
  increasing : tally.failedIndices.Pairwise (· < ·)
  failed : ∀ i, i ∈ tally.failedIndices ↔
    ∃ run, runs[i]? = some run ∧ run.result.isOk = false
  reasons : ∀ (j : Nat) (inside : j < tally.failedIndices.length),
    tally.failureReasons[j]? = runs[tally.failedIndices[j]]?.bind JobRun.reason
  totalFailed : tally.totalFailed = tally.failedIndices.length
  total : tally.totalSuccess + tally.totalFailed = tasks.length

/-- An output of a batch of named jobs. -/
def BatchAccounted (behaves : H → FunctionInput → HandlerResult → Prop) (map : Parameters H)
    (tasks : List FunctionExecutionInput) (tally : Tally FunctionExecutionOutput) : Prop :=
  ∃ runs, BatchOf behaves map tasks runs tally

/-- What follows from the checked value follows. -/
theorem ChecksThen.imp {T : Type} {check : Result Unit} {value : Result T}
    {post weaker : T → Prop} (checks : ChecksThen check value post)
    (implies : ∀ output, check = .ok () → post output → weaker output) :
    ChecksThen check value weaker := by
  cases check with
  | error e => exact checks
  | ok _ =>
      obtain ⟨output, isOutput, holds⟩ := checks
      exact ⟨output, isOutput, implies output rfl holds⟩

section

variable {behaves : H → FunctionInput → HandlerResult → Prop} {map : Parameters H}
  {tasks : List FunctionExecutionInput}

/-- The report of a job is a success exactly if its result is. -/
theorem JobRun.isSuccess_report (run : JobRun) :
    TaskOutput.isSuccess run.report = run.result.isOk := rfl

/-- An output that failed, with the error text it has. -/
theorem failureOf_unsuccessful {out : FunctionExecutionOutput} {text : String}
    (failed : out.success = false) (isText : out.error = text) :
    failureOf (.ok out) = some (if text = "" then "task reported failure" else text) := by
  subst isText
  by_cases isEmpty : out.error = "" <;>
    simp [failureOf, TaskOutput.isSuccess, TaskOutput.error, failed, isEmpty]

/-- What the pattern reports is why the handler failed. -/
theorem JobRun.failureOf_report (run : JobRun) : failureOf (.ok run.report) = run.reason := by
  obtain ⟨task, timing, result⟩ := run
  cases result with
  | ok output => rfl
  | failed display =>
      cases display with
      | none => exact failureOf_unsuccessful rfl rfl
      | some text => exact failureOf_unsuccessful rfl rfl
  | panicked payload =>
      cases payload with
      | none => exact failureOf_unsuccessful rfl rfl
      | some text =>
          have isText : renderPanic (some text) = "handler panicked: " ++ text := rfl
          rw [failureOf_unsuccessful rfl isText]
          simp [JobRun.reason]

/-- Accounts of outcomes that are all reports. -/
theorem batchOf_accounts {runs : List JobRun} {tally : Tally FunctionExecutionOutput}
    (ofTasks : runs.map JobRun.task = tasks)
    (handled : ∀ run ∈ runs, run.Handled behaves map)
    (accounts : Accounts (runs.map fun run => .ok run.report) tally) :
    BatchOf behaves map tasks runs tally where
  ofTasks
  handled
  results := by
    rw [accounts.results, List.filterMap_map]
    exact congrFun List.filterMap_eq_map' _
  increasing := accounts.increasing
  failed i := by
    rw [accounts.failed, List.getElem?_map]
    cases runs[i]? with
    | none => simp
    | some run => simp [JobRun.isSuccess_report]
  reasons j inside := by
    rw [accounts.reasons j inside, List.getElem?_map]
    cases runs[tally.failedIndices[j]]? with
    | none => rfl
    | some run => exact run.failureOf_report
  totalFailed := accounts.totalFailed
  total := by
    rw [accounts.total, ← ofTasks, List.length_map, List.length_map]

variable [DebugText String] {describe : ApplicationFailure → String}
  {outcome : Job FunctionExecutionInput → Result FunctionExecutionOutput}

/-- A valid task whose name is registered is run by that handler, and reports it. -/
theorem job_handled {job : Job FunctionExecutionInput}
    (isValid : Valid job.input) (registered : job.input.name ∈ map)
    (ran : ∃ start events value final, Grows map start ∧
      Returns (activityWorld behaves) (executeFunction job.input) start events value final ∧
      outcome job = outcomeOf describe value) :
    ∃ run : JobRun, run.task = job.input ∧ run.Handled behaves map ∧
      outcome job = .ok run.report := by
  obtain ⟨start, events, value, final, grows, run, isOutcome⟩ := ran
  obtain ⟨handler, isHandler⟩ := Option.isSome_iff_exists.mp (AList.lookup_isSome.mpr registered)
  have later := grows _ _ isHandler
  have executed := executeFunction_executed run
  generalize events.filterMap callOf = calls at executed
  cases executed with
  | refused isRefused => exact absurd (isValid.symm.trans isRefused) nofun
  | notFound _ isAbsent => exact absurd (later.symm.trans isAbsent) nofun
  | ran _ timing first did =>
      obtain rfl := first handler later
      exact ⟨⟨job.input, timing, _⟩, rfl, ⟨_, isHandler, did⟩, isOutcome⟩

/-- The accounts of the outcomes, read as accounts of the handlers. -/
theorem batchAccounted_of_accountsFor (valid : ∀ task ∈ tasks, Valid task)
    (registered : ∀ task ∈ tasks, task.name ∈ map)
    (ran : Ran behaves map describe outcome tasks) {tally : Tally FunctionExecutionOutput}
    (accounts : AccountsFor outcome tasks tally) : BatchAccounted behaves map tasks tally := by
  have isTask : ∀ job ∈ enumerate tasks, job.input ∈ tasks := fun job member => by
    rw [← enumerate_map_input tasks]
    exact List.mem_map_of_mem member
  have each : ∀ job ∈ enumerate tasks, ∃ run : JobRun, run.task = job.input ∧
      run.Handled behaves map ∧ outcome job = .ok run.report := fun job member =>
    job_handled (valid _ (isTask job member)) (registered _ (isTask job member)) (ran job member)
  choose! runOf sameTask handled isReport using each
  have outcomes : (enumerate tasks).map outcome =
      ((enumerate tasks).map runOf).map fun run => .ok run.report := by
    rw [List.map_map]
    exact List.map_congr_left isReport
  refine ⟨(enumerate tasks).map runOf, batchOf_accounts ?_ ?_ (outcomes ▸ accounts.1)⟩
  · rw [List.map_map]
    exact (List.map_congr_left sameTask).trans (enumerate_map_input tasks)
  · intro run member
    obtain ⟨job, isJob, rfl⟩ := List.mem_map.mp member
    exact handled job isJob

end

/-- A batch of named jobs that goes on after failures accounts for the handlers of its
tasks, under every scheduler, when every name is registered before the batch starts. -/
theorem namedJobs_accounting [DebugText String] (behaves : H → FunctionInput → HandlerResult → Prop)
    (map : Parameters H) (describe : ApplicationFailure → String)
    (outcome : Job FunctionExecutionInput → Result FunctionExecutionOutput) :
    (∀ input : PipelineInput FunctionExecutionInput, (∀ task ∈ input.tasks, task.name ∈ map) →
      Ran behaves map describe outcome input.tasks →
      Settles (schedules outcome)
        (fun value _ => ChecksThen input.validate value (BatchAccounted behaves map input.tasks))
        (pipeline { input with stopOnError := false }) ()) ∧
    (∀ input : ParallelInput FunctionExecutionInput, (∀ task ∈ input.tasks, task.name ∈ map) →
      Ran behaves map describe outcome input.tasks →
      Settles (schedules outcome)
        (fun value _ => ChecksThen input.validate value (BatchAccounted behaves map input.tasks))
        (parallel { input with failureStrategy := .continue }) ()) := by
  constructor
  · intro input registered ran
    refine (pipeline_accounting outcome input).mono fun value _ checks => ?_
    refine ChecksThen.imp checks fun tally accepted accounts => ?_
    have valid := (validateTasks_eq_ok_iff input.tasks).mp (guard_eq_ok accepted)
    exact batchAccounted_of_accountsFor valid registered ran accounts
  · intro input registered ran
    refine (parallel_accounting outcome input).mono fun value _ checks => ?_
    refine ChecksThen.imp checks fun tally accepted accounts => ?_
    have valid := (validateTasks_eq_ok_iff input.tasks).mp (guard_eq_ok accepted)
    exact batchAccounted_of_accountsFor valid registered ran accounts

/-- Two handlers, of which the second always fails. -/
def twoHandlers : Parameters Bool := (AList.insert "explode" false ∅).insert "upper" true

def twoBehave (succeeds : Bool) (_ : FunctionInput) (result : HandlerResult) : Prop :=
  result = if succeeds then .ok {} else .failed (some "kaboom")

def twoResult (name : String) : HandlerResult :=
  if name = "upper" then .ok {} else .failed (some "kaboom")

def twoTasks : List FunctionExecutionInput := [{ name := "upper" }, { name := "explode" }]

def twoOutcome (job : Job FunctionExecutionInput) : Result FunctionExecutionOutput :=
  .ok (reported job.input.name ⟨0, 0, 0⟩ (twoResult job.input.name))

/-- The two tasks were run. -/
theorem twoTasks_ran : @Ran Bool plainDebug twoBehave twoHandlers (fun failure => failure.message)
    twoOutcome twoTasks := by
  intro job member
  have isJob : job = ⟨0, { name := "upper" }⟩ ∨ job = ⟨1, { name := "explode" }⟩ := by
    simpa [twoTasks, enumerate] using member
  rcases isJob with rfl | rfl
  · obtain ⟨events, run⟩ := @executeFunction_returns Bool plainDebug twoBehave twoHandlers
      { name := "upper" } true (.ok {}) rfl rfl rfl
    exact ⟨_, events, _, _, .refl _, run, rfl⟩
  · obtain ⟨events, run⟩ := @executeFunction_returns Bool plainDebug twoBehave twoHandlers
      { name := "explode" } false (.failed (some "kaboom")) rfl rfl rfl
    exact ⟨_, events, _, _, .refl _, run, rfl⟩

/-- Their accounting. -/
theorem namedJobs_accounting_twoTasks : letI := plainDebug
    Settles (schedules twoOutcome)
      (fun value _ => ChecksThen (validateTasks twoTasks) value
        (BatchAccounted twoBehave twoHandlers twoTasks))
      (parallel ⟨twoTasks, .continue, 0⟩) () := by
  refine (@namedJobs_accounting Bool plainDebug twoBehave twoHandlers
    (fun failure => failure.message) twoOutcome).2 ⟨twoTasks, .continue, 0⟩ ?_ twoTasks_ran
  decide

end AltairRs.Wf.Function
