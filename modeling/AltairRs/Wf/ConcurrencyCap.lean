import AltairRs.Wf.Patterns
import AltairRs.Wf.Scheduling

/-!
# Concurrency does not show in results

The specification of a concurrent pattern is its evaluation one task after the
other, a recursion over the tasks: `parallelInOrder` and the two loop
specifications read neither the cap nor the `parallel` flag. Every pattern
refines its specification under every scheduler.
-/

namespace AltairRs.Wf

open Effect

variable {I O : Type}

/-- Why an outcome counts as a failure, if it does: the text of the error of the
call, or what the output itself says, or that it says nothing. -/
def failureOf [TaskOutput O] : Result O → Option String
  | .ok out =>
      if TaskOutput.isSuccess out then none
      else some ((TaskOutput.error out).getD "task reported failure")
  | .error e => some (toString e)

/-- The inputs from position `i` on, evaluated one by one in input order: a failure
ends the evaluation if it has to, and is listed before what comes after it if not. -/
def evaluateFrom [TaskOutput O] (outcome : Job I → Result O) (strategy : FailureStrategy)
    (i : Nat) : List I → Result (Tally O)
  | [] => .ok {}
  | input :: rest =>
      match failureOf (outcome ⟨i, input⟩) with
      | some reason =>
          if strategy = .failFast then .error (.patternStopped (toString i) reason)
          else (evaluateFrom outcome strategy (i + 1) rest).map fun later => { later with
            results := (outcome ⟨i, input⟩).toOption.toList ++ later.results
            totalFailed := later.totalFailed + 1
            failedIndices := i :: later.failedIndices
            failureReasons := reason :: later.failureReasons }
      | none =>
          (evaluateFrom outcome strategy (i + 1) rest).map fun later => { later with
            results := (outcome ⟨i, input⟩).toOption.toList ++ later.results
            totalSuccess := later.totalSuccess + 1 }

/-- Aggregate the outcomes of the inputs, evaluated one by one in input order. -/
def aggregateInOrder [TaskOutput O] (outcome : Job I → Result O) (strategy : FailureStrategy)
    (inputs : List I) : Result (Tally O) :=
  evaluateFrom outcome strategy 0 inputs

/-- What `parallel` is for. -/
def parallelInOrder [TaskInput I] [TaskOutput O] (outcome : Job I → Result O)
    (input : ParallelInput I) : Result (ParallelOutput O) := do
  input.validate
  aggregateInOrder outcome input.failureStrategy input.tasks

/-- What `run_loop` is for. -/
def runLoopInOrder [TaskInput I] [TaskOutput O] (outcome : Job I → Result O)
    (input : LoopInput I) (substitutor : Substitutor I) : Result (LoopOutput O) := do
  input.validate
  let tally ← aggregateInOrder outcome input.failureStrategy (input.inputs substitutor)
  return { tally with itemCount := input.items.length }

/-- What `parameterized_loop` is for. -/
def parameterizedLoopInOrder [TaskInput I] [TaskOutput O] (outcome : Job I → Result O)
    (input : ParameterizedLoopInput I) (substitutor : Substitutor I) : Result (LoopOutput O) := do
  input.validate
  let tally ← aggregateInOrder outcome input.failureStrategy (input.inputs substitutor)
  return { tally with
    itemCount := (generateParameterCombinations input.parameters).length }

variable [TaskOutput O]

/-- What has been counted, and then what is counted later. -/
def Tally.append (tally later : Tally O) : Tally O where
  results := tally.results ++ later.results
  totalSuccess := tally.totalSuccess + later.totalSuccess
  totalFailed := tally.totalFailed + later.totalFailed
  failedIndices := tally.failedIndices ++ later.failedIndices
  failureReasons := tally.failureReasons ++ later.failureReasons

/-- A success is kept and counted. -/
theorem record_of_success {outcome : Result O} (success : failureOf outcome = none)
    (stop : Bool) (tally : Tally O) (i : Nat) :
    tally.record stop i outcome = .ok { tally with
      results := tally.results ++ outcome.toOption.toList
      totalSuccess := tally.totalSuccess + 1 } := by
  cases outcome with
  | error e => cases success
  | ok out =>
      rw [failureOf] at success
      split_ifs at success with isSuccess
      exact if_pos isSuccess

/-- A failure stops a loop that fails fast. -/
theorem record_of_stop {outcome : Result O} {reason : String}
    (failure : failureOf outcome = some reason) (tally : Tally O) (i : Nat) :
    tally.record true i outcome = .error (.patternStopped (toString i) reason) := by
  cases outcome with
  | error e =>
      cases failure
      rfl
  | ok out =>
      rw [failureOf] at failure
      split_ifs at failure with isSuccess
      cases failure
      exact if_neg isSuccess

/-- A failure of a loop that goes on is counted, with its position and reason. -/
theorem record_of_failure {outcome : Result O} {reason : String}
    (failure : failureOf outcome = some reason) (tally : Tally O) (i : Nat) :
    tally.record false i outcome = .ok { tally with
      results := tally.results ++ outcome.toOption.toList
      totalFailed := tally.totalFailed + 1
      failedIndices := tally.failedIndices ++ [i]
      failureReasons := tally.failureReasons ++ [reason] } := by
  cases outcome with
  | error e =>
      cases failure
      simp [Tally.record, Except.toOption]
  | ok out =>
      rw [failureOf] at failure
      split_ifs at failure with isSuccess
      cases failure
      exact if_neg isSuccess

/-- The loop over the outcomes adds to what it has counted what the evaluation of the
inputs that are left gives. -/
theorem aggregate_eq_evaluateFrom (outcome : Job I → Result O) (strategy : FailureStrategy)
    (i : Nat) (tally : Tally O) (inputs : List I) :
    aggregate (strategy = .failFast) i tally
        ((inputs.mapIdx fun j input => ⟨i + j, input⟩).map outcome) =
      (evaluateFrom outcome strategy i inputs).map tally.append := by
  induction inputs generalizing i tally with
  | nil => simp [aggregate, evaluateFrom, Except.map, Tally.append]
  | cons input rest ih =>
      have positions : (rest.mapIdx fun j later => (⟨i + (j + 1), later⟩ : Job I)) =
          rest.mapIdx fun j later => ⟨i + 1 + j, later⟩ := by
        simp only [Nat.add_comm, Nat.add_left_comm]
      rw [List.mapIdx_cons, List.map_cons, aggregate, positions, Nat.add_zero, evaluateFrom]
      cases failure : failureOf (outcome ⟨i, input⟩) with
      | none =>
          rw [record_of_success failure]
          refine (ih _ _).trans ?_
          cases evaluateFrom outcome strategy (i + 1) rest with
          | error e => rfl
          | ok later => simp [Except.map, Tally.append, Nat.add_comm, Nat.add_left_comm]
      | some reason =>
          by_cases failFast : strategy = .failFast
          · rw [decide_eq_true failFast, record_of_stop failure]
            simp only [if_pos failFast]
            rfl
          · rw [decide_eq_false failFast] at ih ⊢
            rw [record_of_failure failure]
            simp only [if_neg failFast]
            refine (ih _ _).trans ?_
            cases evaluateFrom outcome strategy (i + 1) rest with
            | error e => rfl
            | ok later => simp [Except.map, Tally.append, Nat.add_comm, Nat.add_left_comm]

/-- From the first input on, this is the aggregate in order. -/
theorem aggregate_enumerate (outcome : Job I → Result O) (strategy : FailureStrategy)
    (inputs : List I) :
    aggregate (strategy = .failFast) 0 {} ((enumerate inputs).map outcome) =
      aggregateInOrder outcome strategy inputs := by
  have fromStart := aggregate_eq_evaluateFrom outcome strategy 0 {} inputs
  simp only [Nat.zero_add] at fromStart
  refine fromStart.trans ?_
  rw [aggregateInOrder]
  cases evaluateFrom outcome strategy 0 inputs with
  | error e => rfl
  | ok later => simp [Except.map, Tally.append]

variable {outcome : Job I → Result O}

/-- The iterations settle on the aggregate of the outcomes in order, run
concurrently under any cap or one by one. -/
theorem runIterations_settles (inputs : List I) (parallelRun : Bool)
    (failureStrategy : FailureStrategy) (maxInFlight : Nat) :
    Settles (schedules outcome)
      (fun value _ => value = aggregateInOrder outcome failureStrategy inputs)
      (runIterations inputs parallelRun failureStrategy maxInFlight) () := by
  cases parallelRun with
  | true =>
      apply Settles.seq (fanOut_settles maxInFlight inputs)
      rintro _ _ rfl
      exact aggregate_enumerate outcome failureStrategy inputs
  | false =>
      apply Settles.seq (oneByOne_settles (enumerate inputs))
      rintro _ _ rfl
      exact aggregate_enumerate outcome failureStrategy inputs

variable [TaskInput I]

/-- Parallel tasks settle on the value that is taken in order. -/
theorem parallel_settles (input : ParallelInput I) :
    Settles (schedules outcome) (fun value _ => value = parallelInOrder outcome input)
      (parallel input) () := by
  unfold parallel parallelInOrder
  cases input.validate with
  | error e => exact rfl
  | ok _ =>
      apply Settles.seq (fanOut_settles input.maxInFlight input.tasks)
      rintro _ _ rfl
      exact aggregate_enumerate outcome input.failureStrategy input.tasks

/-- So does a loop over items. -/
theorem runLoop_settles (input : LoopInput I) (substitutor : Substitutor I) :
    Settles (schedules outcome)
      (fun value _ => value = runLoopInOrder outcome input substitutor)
      (runLoop input substitutor) () := by
  unfold runLoop runLoopInOrder
  cases input.validate with
  | error e => exact rfl
  | ok _ =>
      refine Settles.bind ((runIterations_settles (input.inputs substitutor) input.parallel
        input.failureStrategy input.maxInFlight).mono ?_)
      rintro _ _ rfl
      exact rfl

/-- So does a loop over parameters. -/
theorem parameterizedLoop_settles (input : ParameterizedLoopInput I)
    (substitutor : Substitutor I) :
    Settles (schedules outcome)
      (fun value _ => value = parameterizedLoopInOrder outcome input substitutor)
      (parameterizedLoop input substitutor) () := by
  unfold parameterizedLoop parameterizedLoopInOrder
  cases input.validate with
  | error e => exact rfl
  | ok _ =>
      refine Settles.bind ((runIterations_settles (input.inputs substitutor) input.parallel
        input.failureStrategy input.maxInFlight).mono ?_)
      rintro _ _ rfl
      exact rfl

/-- No cap, completion order, or `parallel` flag shows in what `parallel` and the
two loops return: under every scheduler they return the same value as one task
after the other. -/
theorem concurrency_unobservable (outcome : Job I → Result O) :
    (∀ (input : ParallelInput I) (maxInFlight : Nat),
      Settles (schedules outcome) (fun value _ => value = parallelInOrder outcome input)
        (parallel { input with maxInFlight := maxInFlight }) ()) ∧
    (∀ (input : LoopInput I) (substitutor : Substitutor I) (concurrent : Bool)
      (maxInFlight : Nat),
      Settles (schedules outcome)
        (fun value _ => value = runLoopInOrder outcome input substitutor)
        (runLoop { input with parallel := concurrent, maxInFlight := maxInFlight }
          substitutor) ()) ∧
    (∀ (input : ParameterizedLoopInput I) (substitutor : Substitutor I) (concurrent : Bool)
      (maxInFlight : Nat),
      Settles (schedules outcome)
        (fun value _ => value = parameterizedLoopInOrder outcome input substitutor)
        (parameterizedLoop { input with parallel := concurrent, maxInFlight := maxInFlight }
          substitutor) ()) := by
  refine ⟨fun input maxInFlight => ?_, fun input substitutor concurrent maxInFlight => ?_,
    fun input substitutor concurrent maxInFlight => ?_⟩
  · exact parallel_settles { input with maxInFlight := maxInFlight }
  · exact runLoop_settles
      { input with parallel := concurrent, maxInFlight := maxInFlight } substitutor
  · exact parameterizedLoop_settles
      { input with parallel := concurrent, maxInFlight := maxInFlight } substitutor

end AltairRs.Wf
