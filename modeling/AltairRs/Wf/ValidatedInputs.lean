import AltairRs.Effect.Policy
import AltairRs.Wf.ConcurrencyCap
import AltairRs.Wf.DagValidation
import AltairRs.Wf.Trace

/-!
# Which inputs the patterns validate

Four of the six patterns check every value they dispatch before the first call.
The two loops check their template on entry and build the dispatched values
afterwards, so a substitutor decides whether only valid inputs are dispatched.
-/

namespace AltairRs.Wf

open Effect

variable {I O : Type}

/-- A call of one of the patterns. -/
inductive PatternCall (I : Type) where
  | execute (input : I)
  | pipeline (input : PipelineInput I)
  | parallel (input : ParallelInput I)
  | runLoop (input : LoopInput I) (substitutor : Substitutor I)
  | parameterizedLoop (input : ParameterizedLoopInput I) (substitutor : Substitutor I)
  | runDag (dag : DAGInput I)

namespace PatternCall

/-- What the pattern returns when it succeeds. -/
abbrev Output (O : Type) : PatternCall I → Type
  | .execute _ => O
  | .pipeline _ => PipelineOutput O
  | .parallel _ => ParallelOutput O
  | .runLoop .. | .parameterizedLoop .. => LoopOutput O
  | .runDag _ => DAGOutput O

/-- The program of the call. -/
def run [TaskInput I] [TaskOutput O] :
    (call : PatternCall I) → TaskProgram I O (Result (call.Output O))
  | .execute input => Wf.execute input
  | .pipeline input => Wf.pipeline input
  | .parallel input => Wf.parallel input
  | .runLoop input substitutor => Wf.runLoop input substitutor
  | .parameterizedLoop input substitutor => Wf.parameterizedLoop input substitutor
  | .runDag dag => Wf.runDag dag

/-- The inputs the call is to dispatch. -/
def inputs : PatternCall I → List I
  | .execute input => [input]
  | .pipeline input => input.tasks
  | .parallel input => input.tasks
  | .runLoop input substitutor => input.inputs substitutor
  | .parameterizedLoop input substitutor => input.inputs substitutor
  | .runDag dag => dag.nodes.map DAGNode.input

/-- A loop is checked when its entry check refuses it or the substitutor builds
valid inputs only; the other patterns always are. -/
def Checked [TaskInput I] : PatternCall I → Prop
  | .runLoop input substitutor =>
      input.validate ≠ .ok () ∨ ∀ built ∈ input.inputs substitutor, Valid built
  | .parameterizedLoop input substitutor =>
      input.validate ≠ .ok () ∨ ∀ built ∈ input.inputs substitutor, Valid built
  | _ => True

end PatternCall

/-- In every world, at every cut, only valid inputs have been dispatched; and a
call that is to dispatch an invalid one returns `InvalidInput` without a call. -/
structure DispatchesOnlyValid [TaskInput I] (O : Type) [TaskOutput O] (call : PatternCall I) :
    Prop where
  valid : ∀ {State : Type} (world : World (taskSignature I O) State) state events remainder final,
    Reaches world (call.run : TaskProgram I O _) state events remainder final →
      ∀ job ∈ dispatched events, Valid job.input
  rejects : (∃ input ∈ call.inputs, ¬ Valid input) →
    ∃ message, (call.run : TaskProgram I O _) = .done (.error (.invalidInput message))

/-- Calls are restricted to some inputs, polls are not. -/
def CallsOnly (allowed : I → Prop) : TaskOp I → Prop
  | .dispatch job => allowed job.input
  | .await _ => True

section Calls

variable {allowed : I → Prop}

/-- One permitted task. -/
theorem executeOne_calls {job : Job I} (permitted : allowed job.input) :
    Requests (CallsOnly allowed) (executeOne job : TaskProgram I O _) :=
  Requests.bind (.perform permitted) fun _ => Requests.bind (.perform trivial) fun _ => trivial

/-- Permitted tasks are dispatched. -/
theorem dispatchAll_calls {jobs : List (Job I)} (permitted : ∀ job ∈ jobs, allowed job.input) :
    Requests (CallsOnly allowed) (dispatchAll jobs : TaskProgram I O _) := by
  induction jobs with
  | nil => exact trivial
  | cons job rest ih =>
      obtain ⟨first, later⟩ := List.forall_mem_cons.mp permitted
      exact Requests.bind (.perform first) fun _ => ih later

/-- Awaiting calls no task. -/
theorem awaitAll_calls (waiting : Nat) (inFlight : List (Job I)) :
    Requests (CallsOnly allowed) (awaitAll waiting inFlight : TaskProgram I O _) := by
  induction waiting generalizing inFlight with
  | zero => exact trivial
  | succ waiting ih =>
      exact Requests.bind (.perform trivial) fun _ => Requests.bind (ih _) fun _ => trivial

/-- Permitted tasks are joined. -/
theorem joinAll_calls {jobs : List (Job I)} (permitted : ∀ job ∈ jobs, allowed job.input) :
    Requests (CallsOnly allowed) (joinAll jobs : TaskProgram I O _) :=
  Requests.bind (dispatchAll_calls permitted) fun _ =>
    Requests.bind (awaitAll_calls _ _) fun _ => trivial

/-- Filling calls pending inputs only, and leaves fewer of them pending. -/
theorem fillInFlight_calls (cap : Nat) {pending : List (Job I)} (inFlight : List (Job I))
    (permitted : ∀ job ∈ pending, allowed job.input)
    {next : List (Job I) × List (Job I) → TaskProgram I O (List (Completion O))}
    (later : ∀ filled : List (Job I) × List (Job I), (∀ job ∈ filled.1, allowed job.input) →
      Requests (CallsOnly allowed) (next filled)) :
    Requests (CallsOnly allowed) (fillInFlight cap pending inFlight >>= next) := by
  induction pending generalizing inFlight with
  | nil => exact later _ nofun
  | cons job pending ih =>
      unfold fillInFlight
      by_cases room : inFlight.length < cap
      · rw [if_pos room, bind_assoc]
        obtain ⟨first, others⟩ := List.forall_mem_cons.mp permitted
        exact Requests.bind (.perform first) fun _ => ih _ others
      · rw [if_neg room]
        exact later _ permitted

/-- Permitted tasks are buffered. -/
theorem bufferUnordered_calls (cap waiting : Nat) {pending : List (Job I)}
    (inFlight : List (Job I)) (permitted : ∀ job ∈ pending, allowed job.input) :
    Requests (CallsOnly allowed)
      (bufferUnordered cap waiting pending inFlight : TaskProgram I O _) := by
  induction waiting generalizing pending inFlight with
  | zero => exact trivial
  | succ waiting ih =>
      apply fillInFlight_calls cap inFlight permitted
      intro filled stillPermitted
      exact Requests.bind (.perform trivial) fun _ =>
        Requests.bind (ih _ stillPermitted) fun _ => trivial

/-- Permitted tasks are fanned out. -/
theorem fanOut_calls (maxInFlight : Nat) {jobs : List (Job I)}
    (permitted : ∀ job ∈ jobs, allowed job.input) :
    Requests (CallsOnly allowed) (fanOut maxInFlight jobs : TaskProgram I O _) := by
  unfold fanOut
  by_cases uncapped : maxInFlight = 0
  · rw [if_pos uncapped]
    exact joinAll_calls permitted
  · rw [if_neg uncapped]
    exact Requests.bind (bufferUnordered_calls _ _ _ permitted) fun _ => trivial

/-- Permitted tasks are called one by one. -/
theorem oneByOne_calls {jobs : List (Job I)} (permitted : ∀ job ∈ jobs, allowed job.input) :
    Requests (CallsOnly allowed) (oneByOne jobs : TaskProgram I O _) := by
  induction jobs with
  | nil => exact trivial
  | cons job rest ih =>
      obtain ⟨first, later⟩ := List.forall_mem_cons.mp permitted
      exact Requests.bind (executeOne_calls first) fun _ =>
        Requests.bind (ih later) fun _ => trivial

/-- Numbering inputs does not change them. -/
theorem enumerate_permitted {inputs : List I} (permitted : ∀ input ∈ inputs, allowed input) :
    ∀ job ∈ enumerate inputs, allowed job.input := by
  intro job member
  have isInput : job.input ∈ (enumerate inputs).map Job.input := List.mem_map_of_mem member
  rw [enumerate_map_input] at isInput
  exact permitted _ isInput

variable [TaskOutput O]

/-- Iterations over permitted inputs. -/
theorem runIterations_calls {inputs : List I} (permitted : ∀ input ∈ inputs, allowed input)
    (parallelRun : Bool) (failureStrategy : FailureStrategy) (maxInFlight : Nat) :
    Requests (CallsOnly allowed)
      (runIterations inputs parallelRun failureStrategy maxInFlight : TaskProgram I O _) := by
  unfold runIterations
  cases parallelRun with
  | true =>
      exact Requests.bind (fanOut_calls _ (enumerate_permitted permitted)) fun _ => trivial
  | false =>
      exact Requests.bind (oneByOne_calls (enumerate_permitted permitted)) fun _ => trivial

/-- The loop of a pipeline over permitted tasks. -/
theorem pipelineLoop_calls (stopOnError : Bool) (tally : Tally O) {jobs : List (Job I)}
    (permitted : ∀ job ∈ jobs, allowed job.input) :
    Requests (CallsOnly allowed) (pipelineLoop stopOnError tally jobs) := by
  induction jobs generalizing tally with
  | nil => exact trivial
  | cons job rest ih =>
      obtain ⟨first, later⟩ := List.forall_mem_cons.mp permitted
      apply Requests.bind (executeOne_calls first)
      intro outcome
      cases tally.record stopOnError job.index outcome with
      | error e => exact trivial
      | ok next => exact ih next later

/-- The layers of a graph with permitted inputs. -/
theorem runLayers_calls {dag : DAGInput I} (permitted : ∀ node ∈ dag.nodes, allowed node.input)
    (output : DAGOutput O) (layers : List (List (Fin dag.nodes.length))) :
    Requests (CallsOnly allowed) (runLayers dag output layers) := by
  induction layers generalizing output with
  | nil => exact trivial
  | cons layer rest ih =>
      have jobsPermitted : ∀ job ∈ layer.map dag.job, allowed job.input := by
        intro job member
        obtain ⟨idx, _, rfl⟩ := List.mem_map.mp member
        exact permitted _ (List.getElem_mem idx.isLt)
      apply Requests.bind (joinAll_calls jobsPermitted)
      intro outcomes
      cases output.recordLayer dag.failFast
          ((layer.map fun idx => (dag.nodes.get idx).name).zip outcomes) with
      | error e => exact trivial
      | ok next => exact ih next

end Calls

section EntryChecks

/-- The only error an entry check returns. -/
def IsInvalidInput (e : Error) : Prop :=
  ∃ message, e = .invalidInput message

/-- What is reported as invalid input is that. -/
theorem invalidInput_isInvalidInput (message : String) : IsInvalidInput (.invalidInput message) :=
  ⟨message, rfl⟩

/-- The search fails with invalid input only. -/
theorem dfsIterative_failsWith (adj : Adjacency) (stack : List Frame) (state : VisitStates) :
    FailsWith IsInvalidInput (dfsIterative adj stack state) := by
  fun_induction dfsIterative adj stack state with
  | case1 state => exact .ok _
  | case2 state name cursor rest read ih => exact ih
  | case3 => exact .error (invalidInput_isInvalidInput _)
  | case4 => exact .error (invalidInput_isInvalidInput _)
  | case5 state name cursor rest unread dep depDeps known fresh ih => exact ih
  | case6 state name cursor rest unread dep depDeps known visited ih => exact ih

/-- So does the search from every root. -/
theorem searchRoots_failsWith (adj : Adjacency) (nodes : List (DAGNode I)) (state : VisitStates) :
    FailsWith IsInvalidInput (searchRoots adj nodes state) := by
  induction nodes generalizing state with
  | nil => exact .ok _
  | cons node rest ih =>
      unfold searchRoots
      by_cases fresh : state.get node.name = .unvisited
      · rw [if_pos fresh]
        exact .bind (dfsIterative_failsWith _ _ _) ih
      · rw [if_neg fresh]
        exact ih state

/-- So does the check of the names. -/
theorem checkNames_failsWith (nodes : List (DAGNode I)) (names : Finset String) :
    FailsWith IsInvalidInput (checkNames nodes names) := by
  induction nodes generalizing names with
  | nil => exact .ok _
  | cons node rest ih =>
      unfold checkNames
      by_cases nameless : node.name.isEmpty = true
      · rw [if_pos nameless]
        exact .error (invalidInput_isInvalidInput _)
      · rw [if_neg nameless]
        by_cases repeated : node.name ∈ names
        · rw [if_pos repeated]
          exact .error (invalidInput_isInvalidInput _)
        · rw [if_neg repeated]
          exact ih _

variable [TaskInput I]

/-- Tasks are accepted exactly if each is valid. -/
theorem validateTasks_eq_ok_iff (tasks : List I) :
    validateTasks tasks = .ok () ↔ ∀ task ∈ tasks, Valid task := by
  unfold validateTasks
  rw [forM_eq_ok_iff]
  constructor
  · intro all task member
    obtain ⟨i, inBounds, rfl⟩ := List.mem_iff_getElem.mp member
    have numbered : (tasks[i], i) ∈ tasks.zipIdx := by simp [List.mem_zipIdx_iff_getElem?]
    exact mapError_eq_ok_iff.mp (all _ numbered)
  · intro all numbered member
    exact mapError_eq_ok_iff.mpr (all _ (List.fst_mem_of_mem_zipIdx member))

/-- They are refused as invalid input. -/
theorem validateTasks_failsWith (tasks : List I) :
    FailsWith IsInvalidInput (validateTasks tasks) :=
  .forM fun _ => .mapError fun _ => invalidInput_isInvalidInput _

/-- So is a template. -/
theorem validateTemplate_failsWith (template : I) :
    FailsWith IsInvalidInput (validateTemplate template) :=
  .mapError fun _ => invalidInput_isInvalidInput _

/-- What passes a guarded check passes the check. -/
theorem guard_eq_ok {condition : Prop} [Decidable condition] {e : Error} {check : Result Unit}
    (passes : (do
      if condition then .error e
      check : Result Unit) = .ok ()) : check = .ok () := by
  by_cases holds : condition
  · rw [if_pos holds] at passes
    cases passes
  · rwa [if_neg holds] at passes

/-- A guard in front of a check. -/
theorem guard_failsWith {condition : Prop} [Decidable condition] {message : String}
    {check : Result Unit} (fails : FailsWith IsInvalidInput check) :
    FailsWith IsInvalidInput (do
      if condition then .error (.invalidInput message)
      check) := by
  by_cases holds : condition
  · rw [if_pos holds]
    exact .bind (.error (invalidInput_isInvalidInput _)) fun _ => fails
  · rw [if_neg holds]
    exact fails

/-- So is a pipeline. -/
theorem PipelineInput.validate_failsWith (input : PipelineInput I) :
    FailsWith IsInvalidInput input.validate :=
  guard_failsWith (validateTasks_failsWith _)

/-- So are parallel tasks. -/
theorem ParallelInput.validate_failsWith (input : ParallelInput I) :
    FailsWith IsInvalidInput input.validate :=
  guard_failsWith (validateTasks_failsWith _)

/-- So is a loop over items. -/
theorem LoopInput.validate_failsWith (input : LoopInput I) :
    FailsWith IsInvalidInput input.validate :=
  guard_failsWith (validateTemplate_failsWith _)

/-- So is a loop over parameters. -/
theorem ParameterizedLoopInput.validate_failsWith (input : ParameterizedLoopInput I) :
    FailsWith IsInvalidInput input.validate := by
  refine guard_failsWith (.bind (.forM fun entry => ?_) fun _ => validateTemplate_failsWith _)
  by_cases empty : entry.2.isEmpty = true
  · rw [if_pos empty]
    exact .error (invalidInput_isInvalidInput _)
  · rw [if_neg empty]
    exact .ok _

/-- So is a graph. -/
theorem DAGInput.validate_failsWith (dag : DAGInput I) :
    FailsWith IsInvalidInput dag.validate := by
  refine guard_failsWith (.bind (checkNames_failsWith _ _) fun names => ?_)
  have dependencies : FailsWith IsInvalidInput (checkDependencies dag.nodes names) := by
    refine .forM fun node => .forM fun dep => ?_
    by_cases known : dep ∈ names
    · rw [if_pos known]
      exact .ok _
    · rw [if_neg known]
      exact .error (invalidInput_isInvalidInput _)
  have payloads : FailsWith IsInvalidInput (checkInputs dag.nodes) :=
    .forM fun _ => .mapError fun _ => invalidInput_isInvalidInput _
  exact .bind dependencies fun _ => .bind payloads fun _ =>
    .bind (searchRoots_failsWith _ _ _) fun _ => .ok _

/-- The tasks of an accepted pipeline are valid. -/
theorem PipelineInput.tasks_valid {input : PipelineInput I} (accepted : input.validate = .ok ()) :
    ∀ task ∈ input.tasks, Valid task :=
  (validateTasks_eq_ok_iff _).mp (guard_eq_ok accepted)

/-- So are accepted parallel tasks. -/
theorem ParallelInput.tasks_valid {input : ParallelInput I} (accepted : input.validate = .ok ()) :
    ∀ task ∈ input.tasks, Valid task :=
  (validateTasks_eq_ok_iff _).mp (guard_eq_ok accepted)

end EntryChecks

section Iterations

variable [TaskOutput O]

/-- Aggregation stops with `PatternStopped` only. -/
theorem aggregate_ne_invalidInput (stop : Bool) (i : Nat) (tally : Tally O)
    (outcomes : List (Result O)) (message : String) :
    aggregate stop i tally outcomes ≠ .error (.invalidInput message) := by
  induction outcomes generalizing i tally with
  | nil => exact nofun
  | cons outcome rest ih =>
      unfold aggregate
      cases recorded : tally.record stop i outcome with
      | ok next => exact ih _ next
      | error e =>
          rintro ⟨⟩
          cases outcome with
          | error cause => cases stop <;> simp [Tally.record] at recorded
          | ok out =>
              by_cases success : TaskOutput.isSuccess out = true
              · simp [Tally.record, success] at recorded
              · cases stop <;> simp [Tally.record, success] at recorded

/-- Iterations that return at once do not return `InvalidInput`. -/
theorem runIterations_ne_invalidInput {β : Type} (inputs : List I) (parallelRun : Bool)
    (failureStrategy : FailureStrategy) (maxInFlight : Nat) (finish : Tally O → β)
    (message : String) :
    (runIterations inputs parallelRun failureStrategy maxInFlight >>= fun aggregated =>
      (Program.done (aggregated.map finish) : TaskProgram I O (Result β))) ≠
        .done (.error (.invalidInput message)) := by
  intro returnsAtOnce
  -- Any outcomes do: in the world that gives them, the value is an aggregate.
  let failing : Job I → Result O := fun _ => .error (.invalidInput message)
  have iterations : Settles (schedules failing)
      (fun value _ => value = aggregateInOrder failing failureStrategy inputs)
      (runIterations inputs parallelRun failureStrategy maxInFlight) () :=
    runIterations_settles inputs parallelRun failureStrategy maxInFlight
  have settles : Settles (schedules failing)
      (fun value _ => value = (aggregateInOrder failing failureStrategy inputs).map finish)
      (runIterations inputs parallelRun failureStrategy maxInFlight >>= fun aggregated =>
        Program.done (aggregated.map finish)) () := by
    apply Settles.seq iterations
    intro aggregated _ isAggregate
    exact congrArg (Except.map finish) isAggregate
  rw [returnsAtOnce] at settles
  have same : (Except.error (Error.invalidInput message) : Result β) =
    (aggregateInOrder failing failureStrategy inputs).map finish := settles
  cases value : aggregateInOrder failing failureStrategy inputs with
  | ok tally =>
      rw [value] at same
      cases same
  | error e =>
      rw [value] at same
      cases same
      rw [← aggregate_enumerate] at value
      exact aggregate_ne_invalidInput _ _ _ _ _ value

end Iterations

variable [TaskInput I] [TaskOutput O]

/-- A call behind an entry check: refused it returns the error of the check, and
accepted it is to dispatch valid inputs and calls nothing else. -/
theorem DispatchesOnlyValid.of_entry {call : PatternCall I} (entry : Result Unit)
    (fails : FailsWith IsInvalidInput entry)
    (refused : ∀ e, entry = .error e → (call.run : TaskProgram I O _) = .done (.error e))
    (accepted : entry = .ok () → (∀ input ∈ call.inputs, Valid input) ∧
      Requests (CallsOnly Valid) (call.run : TaskProgram I O _)) :
    DispatchesOnlyValid O call := by
  cases outcome : entry with
  | error e =>
      have returns := refused e outcome
      obtain ⟨message, rfl⟩ := fails e outcome
      refine ⟨fun world state events remainder final execution => ?_, fun _ => ⟨message, returns⟩⟩
      rw [returns] at execution
      rw [execution.of_done.1]
      exact nofun
  | ok _ =>
      obtain ⟨valid, calls⟩ := accepted outcome
      refine ⟨fun world state events remainder final execution job member => ?_, ?_⟩
      · obtain ⟨event, inEvents, dispatches⟩ := List.mem_filterMap.mp member
        have permitted := calls.of_reaches execution event inEvents
        obtain ⟨operation, response⟩ := event
        cases operation with
        | dispatch other =>
            cases dispatches
            exact permitted
        | await inFlight => cases dispatches
      · rintro ⟨input, member, invalid⟩
        exact absurd (valid input member) invalid

/-- A checked call dispatches valid inputs only. -/
theorem PatternCall.Checked.dispatchesOnlyValid {call : PatternCall I} (checked : call.Checked) :
    DispatchesOnlyValid O call := by
  cases call with
  | execute input =>
      let entry := (TaskInput.validate input).mapError fun e => Error.invalidInput (toString e)
      refine .of_entry entry (.mapError fun _ => invalidInput_isInvalidInput _)
        (fun e refused => ?_) fun accepted => ?_
      · cases verdict : TaskInput.validate input with
        | error cause =>
            simp only [entry, verdict, mapError_error] at refused
            cases refused
            simp only [PatternCall.run, Wf.execute, verdict]
            rfl
        | ok _ => simp [entry, verdict] at refused
      · have valid : Valid input := mapError_eq_ok_iff.mp accepted
        refine ⟨by simpa [PatternCall.inputs] using valid, ?_⟩
        simp only [PatternCall.run, Wf.execute, valid]
        exact executeOne_calls valid
  | pipeline input =>
      refine .of_entry input.validate input.validate_failsWith (fun e refused => ?_)
        fun accepted => ?_
      · simp only [PatternCall.run, Wf.pipeline, refused]
        rfl
      · have valid := PipelineInput.tasks_valid accepted
        simp only [PatternCall.run, Wf.pipeline, accepted]
        exact ⟨valid, pipelineLoop_calls _ _ (enumerate_permitted valid)⟩
  | parallel input =>
      refine .of_entry input.validate input.validate_failsWith (fun e refused => ?_)
        fun accepted => ?_
      · simp only [PatternCall.run, Wf.parallel, refused]
        rfl
      · have valid := ParallelInput.tasks_valid accepted
        simp only [PatternCall.run, Wf.parallel, accepted]
        exact ⟨valid, Requests.bind (fanOut_calls _ (enumerate_permitted valid)) fun _ => trivial⟩
  | runLoop input substitutor =>
      refine .of_entry input.validate input.validate_failsWith (fun e refused => ?_)
        fun accepted => ?_
      · simp only [PatternCall.run, Wf.runLoop, refused]
        rfl
      · have valid := checked.resolve_left (not_not_intro accepted)
        simp only [PatternCall.run, Wf.runLoop, accepted]
        exact ⟨valid, Requests.bind (runIterations_calls valid _ _ _) fun _ => trivial⟩
  | parameterizedLoop input substitutor =>
      refine .of_entry input.validate input.validate_failsWith (fun e refused => ?_)
        fun accepted => ?_
      · simp only [PatternCall.run, Wf.parameterizedLoop, refused]
        rfl
      · have valid := checked.resolve_left (not_not_intro accepted)
        simp only [PatternCall.run, Wf.parameterizedLoop, accepted]
        exact ⟨valid, Requests.bind (runIterations_calls valid _ _ _) fun _ => trivial⟩
  | runDag dag =>
      refine .of_entry dag.validate dag.validate_failsWith (fun e refused => ?_)
        fun accepted => ?_
      · simp only [PatternCall.run, Wf.runDag, refused]
        rfl
      · have valid := ((validate_eq_ok_iff dag).mp accepted).2.2.1
        simp only [PatternCall.run, Wf.runDag, accepted]
        exact ⟨List.forall_mem_map.mpr valid, runLayers_calls valid _ _⟩

/-- A loop that passes its entry check and dispatches validated inputs only
builds valid inputs only. -/
theorem loop_checked {entry : Result Unit} {built : List I}
    (rejects : entry = .ok () → ¬ ∃ input ∈ built, ¬ Valid input) :
    entry ≠ .ok () ∨ ∀ input ∈ built, Valid input := by
  by_cases accepted : entry = .ok ()
  · refine .inr fun input member => ?_
    by_contra invalid
    exact rejects accepted ⟨input, member, invalid⟩
  · exact .inl accepted

/-- A call that dispatches valid inputs only is checked. -/
theorem DispatchesOnlyValid.checked {call : PatternCall I}
    (onlyValid : DispatchesOnlyValid O call) : call.Checked := by
  cases call with
  | runLoop input substitutor =>
      apply loop_checked
      intro accepted invalid
      obtain ⟨message, returned⟩ := onlyValid.rejects invalid
      simp only [PatternCall.run, Wf.runLoop, accepted] at returned
      exact runIterations_ne_invalidInput _ _ _ _ _ message returned
  | parameterizedLoop input substitutor =>
      apply loop_checked
      intro accepted invalid
      obtain ⟨message, returned⟩ := onlyValid.rejects invalid
      simp only [PatternCall.run, Wf.parameterizedLoop, accepted] at returned
      exact runIterations_ne_invalidInput _ _ _ _ _ message returned
  | execute | pipeline | parallel | runDag => trivial

/-- The patterns dispatch only validated inputs exactly on the checked calls. -/
theorem dispatchesOnlyValid_iff (call : PatternCall I) :
    DispatchesOnlyValid O call ↔ call.Checked :=
  ⟨DispatchesOnlyValid.checked, PatternCall.Checked.dispatchesOnlyValid⟩

/-- A valid template whose substitutor builds an input that refuses itself. -/
def unvalidatedLoop : PatternCall Task :=
  .runLoop { items := ["us-east-1"], template := ⟨true⟩ } fun _ _ _ _ => ⟨false⟩

/-- The loop dispatches it. -/
theorem unvalidatedLoop_dispatches : ¬ DispatchesOnlyValid StepResult unvalidatedLoop := by
  intro onlyValid
  rcases onlyValid.checked with refused | valid
  · exact refused (by decide)
  · have accepts : Valid (⟨false⟩ : Task) := valid ⟨false⟩ (by decide)
    revert accepts
    decide

end AltairRs.Wf
