import AltairRs.Wf.Accounting
import AltairRs.Wf.Combinations
import AltairRs.Wf.ValidatedInputs

/-!
# Sequential fail-fast

A pipeline that stops on errors and a sequential loop that fails fast call the
same closure on the same inputs. The pipeline looks at each outcome before the
next call; the loop makes all its calls and looks at the outcomes afterwards. They
return alike, and they have called alike only if no input but the last one fails.
-/

namespace AltairRs.Wf

open Effect

variable {σ I O : Type}

/-- The closure of the caller, awaited on one input after the other. What it returns
may depend on a state, and change it. -/
abbrev Closure (σ I O : Type) := σ → I → Result O × σ

/-- The world of one closure: calling it makes a future, awaiting that runs it. -/
def Closure.world (execute : Closure σ I O) : World (taskSignature I O) σ where
  Answers state
    | .dispatch _, _, next => next = state
    | .await inFlight, ready, next => (ready.2, next) = execute state (inFlight.get ready.1).input

/-- The outcomes of the inputs, one after the other. -/
def Closure.outcomes (execute : Closure σ I O) : σ → List I → List (Result O)
  | _, [] => []
  | state, input :: rest =>
      (execute state input).1 :: execute.outcomes (execute state input).2 rest

/-- The state some calls leave. -/
def Closure.after (execute : Closure σ I O) (state : σ) (inputs : List I) : σ :=
  inputs.foldl (fun state input => (execute state input).2) state

/-- The inputs up to and including the first failing one. -/
def Closure.upToFailure [TaskOutput O] (execute : Closure σ I O) : σ → List I → List I
  | _, [] => []
  | state, input :: rest =>
      input :: if (failureOf (execute state input).1).isSome then []
        else execute.upToFailure (execute state input).2 rest

/-- The inputs on which the closure was called. -/
def calls (events : List (Event (taskSignature I O))) : List I :=
  events.filterMap fun
    | ⟨.dispatch job, _⟩ => some job.input
    | ⟨.await _, _⟩ => none

/-- A complete run, with the inputs it called the closure on. -/
def Runs {α : Type} (execute : Closure σ I O) (program : TaskProgram I O α) (state : σ)
    (called : List I) (value : α) (final : σ) : Prop :=
  ∃ events, Returns execute.world program state events value final ∧ calls events = called

section Runs

variable {α β : Type} {execute : Closure σ I O} {state final : σ} {called : List I}

/-- What is done calls nothing. -/
theorem runs_done {value result : α} :
    Runs execute (.done result) state called value final ↔
      called = [] ∧ value = result ∧ final = state := by
  constructor
  · rintro ⟨events, run, rfl⟩
    obtain ⟨rfl, isValue, rfl⟩ := run.of_done
    cases isValue
    exact ⟨rfl, rfl, rfl⟩
  · rintro ⟨rfl, rfl, rfl⟩
    exact ⟨[], .refl, rfl⟩

/-- A sequence runs one part after the other. -/
theorem runs_bind {program : TaskProgram I O α} {next : α → TaskProgram I O β} {value : β} :
    Runs execute (program >>= next) state called value final ↔
      ∃ before first here after, called = before ++ after ∧
        Runs execute program state before first here ∧
        Runs execute (next first) here after value final := by
  constructor
  · rintro ⟨events, run, rfl⟩
    obtain ⟨before, first, here, after, rfl, earlier, later⟩ := Reaches.of_bind run
    exact ⟨_, first, here, _, List.filterMap_append, ⟨before, earlier, rfl⟩, ⟨after, later, rfl⟩⟩
  · rintro ⟨_, first, here, _, rfl, ⟨before, earlier, rfl⟩, ⟨after, later, rfl⟩⟩
    exact ⟨before ++ after, (earlier.bind next).trans later, List.filterMap_append⟩

/-- One call: the outcome and the state are those of the closure. -/
theorem runs_executeOne {job : Job I} {value : Result O} :
    Runs execute (executeOne job) state called value final ↔
      called = [job.input] ∧ (value, final) = execute state job.input := by
  constructor
  · rintro ⟨events, run, rfl⟩
    cases run with
    | step dispatched run =>
        obtain rfl := dispatched
        cases run with
        | @step _ _ _ ready _ _ _ _ awaited run =>
            obtain ⟨rfl, isValue, rfl⟩ := run.of_done
            cases isValue
            obtain ⟨⟨index, inside⟩, outcome⟩ := ready
            obtain rfl : index = 0 := Nat.lt_one_iff.mp inside
            exact ⟨rfl, awaited⟩
  · rintro ⟨rfl, isOutcome⟩
    have dispatched : execute.world.Answers state (.dispatch job) () state := rfl
    have awaited : execute.world.Answers state (.await [job])
      ((⟨0, Nat.one_pos⟩ : Fin [job].length), value) final := isOutcome
    exact ⟨_, .step dispatched (.step awaited .refl), rfl⟩

/-- A call before the rest of a program. -/
theorem runs_executeOne_bind {job : Job I} {next : Result O → TaskProgram I O β} {value : β} :
    Runs execute (executeOne job >>= next) state called value final ↔
      ∃ after, called = job.input :: after ∧
        Runs execute (next (execute state job.input).1) (execute state job.input).2 after value
          final := by
  rw [runs_bind]
  constructor
  · rintro ⟨before, first, here, after, rfl, earlier, later⟩
    obtain ⟨rfl, isOutcome⟩ := runs_executeOne.mp earlier
    rw [← isOutcome]
    exact ⟨after, rfl, later⟩
  · rintro ⟨after, rfl, later⟩
    exact ⟨[job.input], _, _, after, rfl, runs_executeOne.mpr ⟨rfl, rfl⟩, later⟩

end Runs

/-- Awaited one by one, every input is called. -/
theorem runs_oneByOne {execute : Closure σ I O} {jobs : List (Job I)} {state final : σ}
    {called : List I} {value : List (Result O)} :
    Runs execute (oneByOne jobs) state called value final ↔
      called = jobs.map Job.input ∧ value = execute.outcomes state (jobs.map Job.input) ∧
        final = execute.after state (jobs.map Job.input) := by
  induction jobs generalizing state final called value with
  | nil => exact runs_done
  | cons job rest ih =>
      rw [oneByOne, runs_executeOne_bind]
      simp only [runs_bind, ih]
      constructor
      · rintro ⟨_, rfl, _, _, _, _, rfl, ⟨rfl, rfl, rfl⟩, last⟩
        obtain ⟨rfl, rfl, rfl⟩ := runs_done.mp last
        rw [List.append_nil]
        exact ⟨rfl, rfl, rfl⟩
      · rintro ⟨rfl, rfl, rfl⟩
        exact ⟨_, rfl, _, _, _, [], (List.append_nil _).symm, ⟨rfl, rfl, rfl⟩,
          runs_done.mpr ⟨rfl, rfl, rfl⟩⟩

section Stopping

variable [TaskOutput O] {execute : Closure σ I O}

/-- The loop of the pipeline calls up to the first failure, and returns what the aggregation
of all outcomes returns: that looks no further than the first failure either. -/
theorem runs_pipelineLoop {jobs : List (Job I)} {tally : Tally O} {i : Nat}
    (positions : jobs.map Job.index = List.range' i jobs.length) {state final : σ}
    {called : List I} {value : Result (PipelineOutput O)} :
    Runs execute (pipelineLoop true tally jobs) state called value final ↔
      called = execute.upToFailure state (jobs.map Job.input) ∧
        value = aggregate true i tally (execute.outcomes state (jobs.map Job.input)) ∧
          final = execute.after state called := by
  induction jobs generalizing i tally state final called value with
  | nil =>
      rw [pipelineLoop, Program.pure_eq, runs_done]
      constructor
      · rintro ⟨rfl, rfl, rfl⟩
        exact ⟨rfl, rfl, rfl⟩
      · rintro ⟨rfl, rfl, rfl⟩
        exact ⟨rfl, rfl, rfl⟩
  | cons job rest ih =>
      rw [List.map_cons, List.length_cons, List.range'_succ] at positions
      obtain ⟨here, later⟩ := List.cons.inj positions
      rw [pipelineLoop, runs_executeOne_bind, here, List.map_cons, Closure.upToFailure,
        Closure.outcomes, aggregate]
      cases failure : failureOf (execute state job.input).1 with
      | some reason =>
          simp only [record_of_stop failure, Program.pure_eq, runs_done]
          constructor
          · rintro ⟨_, rfl, rfl, rfl, rfl⟩
            exact ⟨rfl, rfl, rfl⟩
          · rintro ⟨rfl, rfl, rfl⟩
            exact ⟨[], rfl, rfl, rfl, rfl⟩
      | none =>
          simp only [record_of_success failure, ih later]
          constructor
          · rintro ⟨_, rfl, rfl, rfl, rfl⟩
            exact ⟨rfl, rfl, rfl⟩
          · rintro ⟨rfl, rfl, rfl⟩
            exact ⟨_, rfl, rfl, rfl, rfl⟩

/-- Everything is called exactly if no input but the last one fails. -/
theorem upToFailure_eq_iff {inputs : List I} {state : σ} :
    execute.upToFailure state inputs = inputs ↔
      ∀ outcome ∈ (execute.outcomes state inputs).dropLast, failureOf outcome = none := by
  induction inputs generalizing state with
  | nil => simp [Closure.upToFailure, Closure.outcomes]
  | cons input rest ih =>
      rw [Closure.upToFailure, Closure.outcomes, List.cons_inj_right]
      cases rest with
      | nil => simp [Closure.upToFailure, Closure.outcomes]
      | cons second rest =>
          have another : execute.outcomes (execute state input).2 (second :: rest) ≠ [] :=
            List.cons_ne_nil _ _
          rw [List.dropLast_cons_of_ne_nil another, List.forall_mem_cons, ← ih]
          cases failure : failureOf (execute state input).1 with
          | some reason => simp
          | none => simp

/-- A sequential loop that fails fast, after its entry check. -/
theorem runs_iterations {state final : σ} {inputs called : List I} {maxInFlight itemCount : Nat}
    {value : Result (LoopOutput O)} :
    Runs execute (do
        let aggregated ← runIterations inputs false .failFast maxInFlight
        return aggregated.map fun tally => { tally with itemCount := itemCount }) state called value
        final ↔
      called = inputs ∧
        value = (aggregate true 0 {} (execute.outcomes state inputs)).map
          (fun tally => { tally with itemCount := itemCount }) ∧
          final = execute.after state inputs := by
  have inOrder : (do
      let aggregated ← runIterations inputs false .failFast maxInFlight
      return aggregated.map fun tally => { tally with itemCount := itemCount } :
        TaskProgram I O (Result (LoopOutput O))) =
      (oneByOne (enumerate inputs) >>= fun outcomes =>
        .done ((aggregate true 0 {} outcomes).map
          fun tally => { tally with itemCount := itemCount })) := by
    rw [runIterations, if_neg Bool.false_ne_true, bind_assoc]
    rfl
  rw [inOrder, runs_bind]
  simp only [runs_oneByOne, runs_done, enumerate_map_input]
  constructor
  · rintro ⟨_, _, _, _, rfl, ⟨rfl, rfl, rfl⟩, rfl, rfl, rfl⟩
    rw [List.append_nil]
    exact ⟨rfl, rfl, rfl⟩
  · rintro ⟨rfl, rfl, rfl⟩
    exact ⟨_, _, _, [], (List.append_nil _).symm, ⟨rfl, rfl, rfl⟩, rfl, rfl, rfl⟩

end Stopping

/-- Both return the same stop, or the same output, or neither returns one. -/
structure SameReturn (loop : Result (LoopOutput O)) (pipe : Result (PipelineOutput O)) : Prop where
  stops : ∀ position reason, loop = .error (.patternStopped position reason) ↔
    pipe = .error (.patternStopped position reason)
  results : ∀ tally, (∃ output, loop = .ok output ∧ output.toTally = tally) ↔ pipe = .ok tally

/-- What differs is only the number of inputs, which a loop adds. -/
theorem sameReturn_map (value : Result (Tally O)) (itemCount : Nat) :
    SameReturn (value.map fun tally => { tally with itemCount := itemCount }) value := by
  cases value <;> exact ⟨by simp [Except.map], by simp [Except.map]⟩

/-- Both refuse their input. -/
theorem sameReturn_refused {e other : Error} (refused : IsInvalidInput e)
    (otherRefused : IsInvalidInput other) :
    SameReturn (.error e : Result (LoopOutput O)) (.error other) := by
  obtain ⟨message, rfl⟩ := refused
  obtain ⟨otherMessage, rfl⟩ := otherRefused
  exact ⟨by simp, by simp⟩

/-- A loop stops as the pipeline with `stopOnError` does on the same inputs: both have a run,
and in any two runs they call the closure on the inputs up to the first failing one and on none
after it, and return alike. -/
def StopsAlike [TaskInput I] [TaskOutput O] (execute : Closure σ I O) (state : σ)
    (loop : TaskProgram I O (Result (LoopOutput O))) (inputs : List I) : Prop :=
  (∃ called value final, Runs execute loop state called value final) ∧
    (∃ called value final, Runs execute (pipeline { tasks := inputs, stopOnError := true }) state
      called value final) ∧
    ∀ called value final pipeCalled pipeValue pipeFinal,
      Runs execute loop state called value final →
        Runs execute (pipeline { tasks := inputs, stopOnError := true }) state pipeCalled pipeValue
          pipeFinal →
        called = pipeCalled ∧ called = execute.upToFailure state inputs ∧
          SameReturn value pipeValue

/-- There is nothing to call, or the loop passes its entry check and no input but the last
one fails. -/
def StopsInTime [TaskOutput O] (execute : Closure σ I O) (state : σ) (check : Result Unit)
    (inputs : List I) : Prop :=
  inputs = [] ∨ check = .ok () ∧
    ∀ outcome ∈ (execute.outcomes state inputs).dropLast, failureOf outcome = none

section Loops

variable [TaskInput I] [TaskOutput O] {execute : Closure σ I O} {state final : σ}
  {inputs called : List I}

/-- A pipeline without tasks is refused. -/
theorem runs_pipeline_empty {value : Result (PipelineOutput O)} :
    Runs execute (pipeline { tasks := [], stopOnError := true }) state called value final ↔
      called = [] ∧ value = .error (.invalidInput "pipeline tasks must be non-empty") ∧
        final = state :=
  runs_done

/-- A pipeline with valid tasks stops at the first that fails. -/
theorem runs_pipeline (nonempty : inputs ≠ []) (valid : ∀ input ∈ inputs, Valid input)
    {value : Result (PipelineOutput O)} :
    Runs execute (pipeline { tasks := inputs, stopOnError := true }) state called value final ↔
      called = execute.upToFailure state inputs ∧
        value = aggregate true 0 {} (execute.outcomes state inputs) ∧
          final = execute.after state called := by
  have accepted : PipelineInput.validate { tasks := inputs, stopOnError := true } = .ok () := by
    have notEmpty : ¬ inputs.isEmpty = true := mt List.isEmpty_iff.mp nonempty
    rw [PipelineInput.validate, if_neg notEmpty]
    exact (validateTasks_eq_ok_iff inputs).mpr valid
  have loop : Runs execute (pipelineLoop true {} (enumerate inputs)) state called value final ↔ _ :=
    runs_pipelineLoop (enumerate_positions inputs)
  rw [enumerate_map_input] at loop
  rw [pipeline, accepted]
  exact loop

/-- A loop whose entry check refuses with `InvalidInput`, and refuses when it has no input. -/
theorem stopsAlike_iff {check : Result Unit} {loop : TaskProgram I O (Result (LoopOutput O))}
    {maxInFlight itemCount : Nat}
    (isLoop : loop = match check with
      | .error e => return .error e
      | .ok _ => do
          let aggregated ← runIterations inputs false .failFast maxInFlight
          return aggregated.map fun tally => { tally with itemCount := itemCount })
    (refuses : FailsWith IsInvalidInput check) (nonempty : check = .ok () → inputs ≠ [])
    (valid : ∀ input ∈ inputs, Valid input) :
    StopsAlike execute state loop inputs ↔ StopsInTime execute state check inputs := by
  subst isLoop
  cases check with
  | error e =>
      have refused : IsInvalidInput e := refuses e rfl
      simp only [StopsAlike, Program.pure_eq, runs_done]
      by_cases empty : inputs = []
      · subst empty
        have refusedToo := invalidInput_isInvalidInput "pipeline tasks must be non-empty"
        refine iff_of_true ⟨⟨_, _, _, rfl, rfl, rfl⟩,
          ⟨_, _, _, runs_pipeline_empty.mpr ⟨rfl, rfl, rfl⟩⟩,
          ?_⟩ (.inl rfl)
        rintro _ _ _ _ _ _ ⟨rfl, rfl, rfl⟩ run
        obtain ⟨rfl, rfl, rfl⟩ := runs_pipeline_empty.mp run
        exact ⟨rfl, rfl, sameReturn_refused refused refusedToo⟩
      · -- The pipeline calls the first input, the loop none.
        refine iff_of_false ?_ ?_
        · rintro ⟨-, ⟨_, _, _, run⟩, alike⟩
          obtain ⟨-, none, -⟩ := alike _ _ _ _ _ _ ⟨rfl, rfl, rfl⟩ run
          obtain ⟨first, rest, rfl⟩ := List.exists_cons_of_ne_nil empty
          cases none
        · rintro (isEmpty | ⟨accepted, -⟩)
          · exact empty isEmpty
          · cases accepted
  | ok _ =>
      have notEmpty := nonempty rfl
      simp only [StopsAlike, runs_iterations, runs_pipeline notEmpty valid]
      constructor
      · rintro ⟨-, -, alike⟩
        obtain ⟨-, all, -⟩ := alike _ _ _ _ _ _ ⟨rfl, rfl, rfl⟩ ⟨rfl, rfl, rfl⟩
        exact .inr ⟨rfl, upToFailure_eq_iff.mp all.symm⟩
      · rintro (isEmpty | ⟨-, inTime⟩)
        · exact absurd isEmpty notEmpty
        · have all := upToFailure_eq_iff.mpr inTime
          refine ⟨⟨_, _, _, rfl, rfl, rfl⟩, ⟨_, _, _, rfl, rfl, rfl⟩, ?_⟩
          rintro _ _ _ _ _ _ ⟨rfl, rfl, rfl⟩ ⟨rfl, rfl, rfl⟩
          exact ⟨all.symm, all.symm, sameReturn_map _ _⟩

/-- An accepted loop has an input. -/
theorem LoopInput.inputs_ne_nil {input : LoopInput I} (substitutor : Substitutor I)
    (accepted : input.validate = .ok ()) : input.inputs substitutor ≠ [] := by
  intro noInputs
  rw [LoopInput.inputs, List.mapIdx_eq_nil_iff] at noInputs
  rw [LoopInput.validate, noInputs] at accepted
  cases accepted

/-- So has an accepted loop over parameters. -/
theorem ParameterizedLoopInput.inputs_ne_nil {input : ParameterizedLoopInput I}
    (substitutor : Substitutor I) (accepted : input.validate = .ok ()) :
    input.inputs substitutor ≠ [] := by
  intro noInputs
  rw [ParameterizedLoopInput.inputs, List.mapIdx_eq_nil_iff] at noInputs
  rw [ParameterizedLoopInput.validate] at accepted
  have nonempty : input.parameters.entries ≠ [] := by
    intro isNil
    rw [isNil] at accepted
    cases accepted
  have allHaveValues : ∀ entry ∈ input.parameters.entries, entry.2 ≠ [] := by
    obtain ⟨_, entriesPass, -⟩ := bind_eq_ok_iff.mp (guard_eq_ok accepted)
    intro entry member isNil
    have passes := forM_eq_ok_iff.mp entriesPass entry member
    rw [isNil] at passes
    cases passes
  -- A product of positive lengths is positive.
  have none := length_generateParameterCombinations nonempty
  rw [noInputs, List.length_nil, eq_comm, List.prod_eq_zero_iff_exists_zero_nat] at none
  obtain ⟨_, member, rfl⟩ := none
  obtain ⟨entry, inMap, noValues⟩ := List.mem_map.mp member
  exact allHaveValues entry inMap (List.length_eq_zero_iff.mp noValues)

/-- A loop over items stops like a pipeline exactly where it stops in time. -/
theorem runLoop_stopsAlike_iff (execute : Closure σ I O) (state : σ) (input : LoopInput I)
    (substitutor : Substitutor I) (valid : ∀ built ∈ input.inputs substitutor, Valid built) :
    StopsAlike execute state
        (runLoop { input with parallel := false, failureStrategy := .failFast } substitutor)
        (input.inputs substitutor) ↔
      StopsInTime execute state input.validate (input.inputs substitutor) :=
  stopsAlike_iff rfl (LoopInput.validate_failsWith input) (LoopInput.inputs_ne_nil substitutor)
    valid

/-- So does a loop over parameters. -/
theorem parameterizedLoop_stopsAlike_iff (execute : Closure σ I O) (state : σ)
    (input : ParameterizedLoopInput I) (substitutor : Substitutor I)
    (valid : ∀ built ∈ input.inputs substitutor, Valid built) :
    StopsAlike execute state
        (parameterizedLoop { input with parallel := false, failureStrategy := .failFast }
          substitutor)
        (input.inputs substitutor) ↔
      StopsInTime execute state input.validate (input.inputs substitutor) :=
  stopsAlike_iff rfl (ParameterizedLoopInput.validate_failsWith input)
    (ParameterizedLoopInput.inputs_ne_nil substitutor) valid

/-- A sequential loop that fails fast stops as the pipeline does on its inputs exactly when
there is no input, or its entry check passes and no input but the last one fails: every call
after the first failure is one that the pipeline does not make. -/
theorem failFast_stops_iff (execute : Closure σ I O) (state : σ) :
    (∀ (input : LoopInput I) (substitutor : Substitutor I),
      (∀ built ∈ input.inputs substitutor, Valid built) →
        (StopsAlike execute state
            (runLoop { input with parallel := false, failureStrategy := .failFast } substitutor)
            (input.inputs substitutor) ↔
          StopsInTime execute state input.validate (input.inputs substitutor))) ∧
    (∀ (input : ParameterizedLoopInput I) (substitutor : Substitutor I),
      (∀ built ∈ input.inputs substitutor, Valid built) →
        (StopsAlike execute state
            (parameterizedLoop { input with parallel := false, failureStrategy := .failFast }
              substitutor)
            (input.inputs substitutor) ↔
          StopsInTime execute state input.validate (input.inputs substitutor))) :=
  ⟨runLoop_stopsAlike_iff execute state, parameterizedLoop_stopsAlike_iff execute state⟩

end Loops

/-- Two regions, one after the other. -/
def twoRegions : LoopInput Task where
  items := ["us-east-1", "eu-west-1"]
  template := ⟨true⟩
  failureStrategy := .failFast

/-- The same as a parameter. -/
def regionParameter : ParameterizedLoopInput Task where
  parameters := AList.singleton "region" ["us-east-1", "eu-west-1"]
  template := ⟨true⟩
  failureStrategy := .failFast

/-- A substitutor that returns the template. -/
def keepTemplate : Substitutor Task := fun template _ _ _ => template

/-- A closure that counts its calls, the first of which succeeds. -/
def firstSucceeds : Closure Nat Task StepResult := fun count _ =>
  (if count = 0 then .ok ⟨0, true, ""⟩ else .error (.activity "deploy" "refused"), count + 1)

/-- The inputs of the two regions. -/
theorem regionParameter_inputs : regionParameter.inputs keepTemplate = [⟨true⟩, ⟨true⟩] := by
  have two : (regionParameter.inputs keepTemplate).length = 2 := by
    rw [ParameterizedLoopInput.inputs, List.length_mapIdx,
      length_generateParameterCombinations (by decide)]
    rfl
  have same : ∀ built ∈ regionParameter.inputs keepTemplate, built = ⟨true⟩ := by
    intro built member
    obtain ⟨_, _, rfl⟩ := List.mem_mapIdx.mp member
    rfl
  exact List.eq_replicate_of_mem same ▸ two ▸ rfl

/-- Both are valid. -/
theorem twoTasks_valid : ∀ built ∈ ([⟨true⟩, ⟨true⟩] : List Task), Valid built := by
  intro built member
  have same : built = ⟨true⟩ ∨ built = ⟨true⟩ := by simpa using member
  rcases same with rfl | rfl <;> rfl

/-- Where only the last task fails, the loops stop like the pipeline. -/
theorem failFast_stops_iff_firstSucceeds :
    StopsAlike firstSucceeds 0 (runLoop twoRegions keepTemplate) [⟨true⟩, ⟨true⟩] ∧
      StopsAlike firstSucceeds 0 (parameterizedLoop regionParameter keepTemplate)
        [⟨true⟩, ⟨true⟩] := by
  have onlyLast : ∀ outcome ∈ (firstSucceeds.outcomes 0 [⟨true⟩, ⟨true⟩]).dropLast,
      failureOf outcome = none := by
    rintro outcome member
    obtain rfl := List.mem_singleton.mp member
    rfl
  have stops := failFast_stops_iff firstSucceeds 0
  constructor
  · exact (stops.1 twoRegions keepTemplate twoTasks_valid).mpr (.inr ⟨rfl, onlyLast⟩)
  · have parameterized := stops.2 regionParameter keepTemplate
    rw [regionParameter_inputs] at parameterized
    exact (parameterized twoTasks_valid).mpr (.inr ⟨rfl, onlyLast⟩)

/-- A closure that counts its calls, all of which fail. -/
def outage : Closure Nat Task StepResult := fun count _ =>
  (.error (.activity "deploy" "refused"), count + 1)

/-- The first region fails, and the loop deploys the second one all the same. -/
theorem secondRegion_deployed :
    Runs outage (runLoop twoRegions keepTemplate) 0 [⟨true⟩, ⟨true⟩]
        (.error (.patternStopped "0" "activity 'deploy' failed: refused")) 2 ∧
      Runs outage (pipeline { tasks := [⟨true⟩, ⟨true⟩], stopOnError := true }) 0
        [⟨true⟩] (.error (.patternStopped "0" "activity 'deploy' failed: refused")) 1 ∧
      ¬ StopsAlike outage 0 (runLoop twoRegions keepTemplate) [⟨true⟩, ⟨true⟩] := by
  have loop : Runs outage (runLoop twoRegions keepTemplate) 0 [⟨true⟩, ⟨true⟩]
      (.error (.patternStopped "0" "activity 'deploy' failed: refused")) 2 :=
    runs_iterations.mpr ⟨rfl, rfl, rfl⟩
  have pipe : Runs outage (pipeline { tasks := [⟨true⟩, ⟨true⟩], stopOnError := true }) 0
      [⟨true⟩] (.error (.patternStopped "0" "activity 'deploy' failed: refused")) 1 :=
    (runs_pipeline (List.cons_ne_nil _ _) twoTasks_valid).mpr ⟨rfl, rfl, rfl⟩
  refine ⟨loop, pipe, ?_⟩
  rintro ⟨-, -, alike⟩
  obtain ⟨same, -, -⟩ := alike _ _ _ _ _ _ loop pipe
  cases same

end AltairRs.Wf
