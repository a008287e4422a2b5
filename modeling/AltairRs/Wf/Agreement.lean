import AltairRs.Wf.Combinations
import AltairRs.Wf.ValidatedInputs

/-!
# One fan-out behind the patterns

A cap of one makes the bounded fan-out call its inputs one after the other, so the
sequential loops and the pipeline that goes on are the parallel pattern with that cap.
The equations are between programs: the same calls in the same order, whatever they
are answered.
-/

namespace AltairRs.Wf

open Effect

variable {I O : Type}

/-- With as many futures in flight as the cap allows, none is started. -/
theorem fillInFlight_full {cap : Nat} {inFlight : List (Job I)} (full : ¬ inFlight.length < cap)
    (pending : List (Job I)) :
    (fillInFlight cap pending inFlight : TaskProgram I O _) = .done (pending, inFlight) := by
  cases pending with
  | nil => rfl
  | cons job pending => exact if_neg full

/-- One outcome for every input. -/
theorem oneByOne_yields (jobs : List (Job I)) :
    Yields (fun outcomes => outcomes.length = jobs.length)
      (oneByOne jobs : TaskProgram I O (List (Result O))) := by
  induction jobs with
  | nil => exact rfl
  | cons job rest ih =>
      refine Yields.seq fun outcome => Yields.bind ih fun later sameLength => ?_
      exact congrArg (· + 1) sameLength

/-- Under a cap of one the next call is made when the last one has ended. -/
theorem bufferUnordered_one (jobs : List (Job I)) :
    (bufferUnordered 1 jobs.length jobs [] : TaskProgram I O _) =
      (fun outcomes => (jobs.map Job.index).zip outcomes) <$> oneByOne jobs := by
  induction jobs with
  | nil => rfl
  | cons job rest ih =>
      have full : ¬ [job].length < 1 := Nat.lt_irrefl 1
      have filled : (fillInFlight 1 (job :: rest) [] : TaskProgram I O _) =
          dispatch job >>= fun _ => .done (rest, [job]) := by
        rw [fillInFlight]
        refine (if_pos Nat.zero_lt_one).trans (congrArg _ (funext fun _ => ?_))
        exact fillInFlight_full full rest
      simp only [List.length_cons, bufferUnordered, filled, oneByOne, executeOne, map_bind,
        bind_assoc]
      refine congrArg (dispatch job >>= ·) (funext fun _ => ?_)
      refine congrArg (await [job] >>= ·) (funext fun ready => ?_)
      obtain ⟨⟨position, inside⟩, outcome⟩ := ready
      obtain rfl : position = 0 := Nat.lt_one_iff.mp inside
      change (bufferUnordered 1 rest.length rest [] >>= fun later =>
          pure ((job.index, outcome) :: later)) =
        oneByOne rest >>= fun later => pure ((job.index, outcome) :: (rest.map Job.index).zip later)
      rw [ih, bind_map_left]

/-- A cap of one is no concurrency. -/
theorem buffered_one {jobs : List (Job I)} (increasing : (jobs.map Job.index).Pairwise (· < ·)) :
    (buffered 1 jobs : TaskProgram I O _) = oneByOne jobs := by
  have inOrder : (buffered 1 jobs : TaskProgram I O (List (Result O))) =
      (fun completions => (completions.mergeSort fun first second =>
        first.1 ≤ second.1).map Prod.snd) <$> bufferUnordered 1 jobs.length jobs [] := rfl
  rw [inOrder, bufferUnordered_one, Functor.map_map]
  refine ((oneByOne_yields jobs).map_congr fun outcomes sameLength => ?_).trans (id_map _)
  have bothLengths : (jobs.map Job.index).length = outcomes.length := by
    rw [List.length_map, sameLength]
  have keys : ((jobs.map Job.index).zip outcomes).map Prod.fst = jobs.map Job.index :=
    List.map_fst_zip bothLengths.le
  have ordered : (((jobs.map Job.index).zip outcomes).map Prod.fst).Pairwise (· < ·) := by
    rw [keys]
    exact increasing
  rw [Keyed.mergeSort_of_perm (.refl _) ordered]
  exact List.map_snd_zip bothLengths.ge

/-- Inputs have increasing positions. -/
theorem enumerate_increasing (inputs : List I) :
    ((enumerate inputs).map Job.index).Pairwise (· < ·) := by
  rw [enumerate_positions]
  exact List.pairwise_lt_range'

variable [TaskOutput O]

/-- The iterations of a loop are a fan-out, under a cap of one if they are sequential. -/
theorem runIterations_eq (inputs : List I) (parallelRun : Bool)
    (failureStrategy : FailureStrategy) (maxInFlight : Nat) :
    (runIterations inputs parallelRun failureStrategy maxInFlight : TaskProgram I O _) =
      aggregate (failureStrategy = .failFast) 0 {} <$>
        fanOut (if parallelRun then maxInFlight else 1) (enumerate inputs) := by
  cases parallelRun with
  | true => exact rfl
  | false =>
      have sequential : (fanOut 1 (enumerate inputs) : TaskProgram I O _) =
          oneByOne (enumerate inputs) := buffered_one (enumerate_increasing inputs)
      rw [if_neg Bool.false_ne_true, sequential]
      exact rfl

/-- Nothing stops a recording that goes on. -/
theorem record_goes_on (tally : Tally O) (i : Nat) (outcome : Result O) :
    ∃ next, tally.record false i outcome = .ok next := by
  cases outcome with
  | error e => exact ⟨_, rfl⟩
  | ok out =>
      by_cases success : TaskOutput.isSuccess out = true
      · exact ⟨_, if_pos success⟩
      · exact ⟨_, if_neg success⟩

/-- Recording that goes on can wait until the last call has ended. -/
theorem pipelineLoop_eq {jobs : List (Job I)} {i : Nat}
    (positions : jobs.map Job.index = List.range' i jobs.length) (tally : Tally O) :
    (pipelineLoop false tally jobs : TaskProgram I O _) =
      aggregate false i tally <$> oneByOne jobs := by
  induction jobs generalizing i tally with
  | nil => exact rfl
  | cons job rest ih =>
      rw [List.map_cons, List.length_cons, List.range'_succ] at positions
      obtain ⟨here, later⟩ := List.cons.inj positions
      simp only [pipelineLoop, oneByOne, map_bind]
      refine congrArg (executeOne job >>= ·) (funext fun outcome => ?_)
      obtain ⟨next, recorded⟩ := record_goes_on tally i outcome
      have aggregated : ∀ outcomes, aggregate false i tally (outcome :: outcomes) =
          aggregate false (i + 1) next outcomes := by
        intro outcomes
        rw [aggregate, recorded]
        rfl
      rw [here, recorded]
      change pipelineLoop false next rest =
        oneByOne rest >>= fun outcomes => .done (aggregate false i tally (outcome :: outcomes))
      simp only [aggregated]
      exact ih later next

variable [TaskInput I]

/-- A batch that passes its check is a fan-out. -/
theorem parallel_eq {input : ParallelInput I} (accepted : input.validate = .ok ()) :
    (parallel input : TaskProgram I O _) =
      aggregate (input.failureStrategy = .failFast) 0 {} <$>
        fanOut input.maxInFlight (enumerate input.tasks) := by
  rw [parallel, accepted]
  exact rfl

/-- The output of a loop over this many items. -/
def asLoop (itemCount : Nat) (tally : Result (Tally O)) : Result (LoopOutput O) :=
  tally.map fun tally => { tally with itemCount := itemCount }

/-- A batch of valid tasks passes the check. -/
theorem ParallelInput.validate_eq_ok {tasks : List I} (isSome : tasks ≠ [])
    (valid : ∀ task ∈ tasks, Valid task) (failureStrategy : FailureStrategy) (maxInFlight : Nat) :
    ParallelInput.validate ⟨tasks, failureStrategy, maxInFlight⟩ = .ok () := by
  refine guarded_eq_ok_iff.mpr ⟨?_, (validateTasks_eq_ok_iff tasks).mpr valid⟩
  intro isEmpty
  exact isSome (List.isEmpty_iff.mp isEmpty)

/-- The cap a loop runs under: one, if it is sequential. -/
def effectiveCap (parallelRun : Bool) (maxInFlight : Nat) : Nat :=
  if parallelRun then maxInFlight else 1

/-- Valid inputs are iterated as a parallel batch. -/
theorem runIterations_eq_parallel {inputs : List I} (isSome : inputs ≠ [])
    (valid : ∀ task ∈ inputs, Valid task) (parallelRun : Bool) (failureStrategy : FailureStrategy)
    (maxInFlight : Nat) :
    (runIterations inputs parallelRun failureStrategy maxInFlight : TaskProgram I O _) =
      parallel ⟨inputs, failureStrategy, effectiveCap parallelRun maxInFlight⟩ := by
  rw [runIterations_eq, parallel_eq (ParallelInput.validate_eq_ok isSome valid _ _)]
  rfl

/-- An accepted loop with valid inputs is their parallel run. -/
theorem runLoop_eq {input : LoopInput I} {substitutor : Substitutor I}
    (accepted : input.validate = .ok ()) (valid : ∀ task ∈ input.inputs substitutor, Valid task) :
    (runLoop input substitutor : TaskProgram I O _) =
      asLoop input.items.length <$> parallel ⟨input.inputs substitutor, input.failureStrategy,
        effectiveCap input.parallel input.maxInFlight⟩ := by
  have isSome : input.inputs substitutor ≠ [] := by
    intro isEmpty
    have noItems : input.items = [] := List.mapIdx_eq_nil_iff.mp isEmpty
    exact (guarded_eq_ok_iff.mp accepted).1 (List.isEmpty_iff.mpr noItems)
  rw [runLoop, accepted, ← runIterations_eq_parallel isSome valid]
  rfl

/-- Checked parameters have a combination. -/
theorem generateParameterCombinations_ne_nil {input : ParameterizedLoopInput I}
    (accepted : input.validate = .ok ()) :
    generateParameterCombinations input.parameters ≠ [] := by
  obtain ⟨isSome, rest⟩ := guarded_eq_ok_iff.mp accepted
  obtain ⟨_, allSome, -⟩ := bind_eq_ok_iff.mp rest
  have nonempty : input.parameters.entries ≠ [] := fun isEmpty =>
    isSome (List.isEmpty_iff.mpr isEmpty)
  rw [← List.length_pos_iff, length_generateParameterCombinations nonempty]
  refine List.prod_pos_iff_forall_pos_nat.mpr fun count member => ?_
  obtain ⟨entry, isEntry, rfl⟩ := List.mem_map.mp member
  have checked := forM_eq_ok_iff.mp allSome entry isEntry
  refine List.length_pos_iff.mpr fun isEmpty => ?_
  rw [if_pos (List.isEmpty_iff.mpr isEmpty)] at checked
  cases checked

/-- So is a loop over parameters. -/
theorem parameterizedLoop_eq {input : ParameterizedLoopInput I} {substitutor : Substitutor I}
    (accepted : input.validate = .ok ()) (valid : ∀ task ∈ input.inputs substitutor, Valid task) :
    (parameterizedLoop input substitutor : TaskProgram I O _) =
      asLoop (generateParameterCombinations input.parameters).length <$>
        parallel ⟨input.inputs substitutor, input.failureStrategy,
          effectiveCap input.parallel input.maxInFlight⟩ := by
  have isSome : input.inputs substitutor ≠ [] := fun isEmpty =>
    generateParameterCombinations_ne_nil accepted (List.mapIdx_eq_nil_iff.mp isEmpty)
  rw [parameterizedLoop, accepted, ← runIterations_eq_parallel isSome valid]
  rfl

/-- A pipeline that goes on is a batch under a cap of one. -/
theorem pipeline_eq {tasks : List I} (isSome : tasks ≠ []) (cleanup : Bool) :
    (pipeline ⟨tasks, false, cleanup⟩ : TaskProgram I O _) = parallel ⟨tasks, .continue, 1⟩ := by
  have notEmpty : ¬ tasks.isEmpty = true := fun isEmpty => isSome (List.isEmpty_iff.mp isEmpty)
  have pipelineChecks : PipelineInput.validate ⟨tasks, false, cleanup⟩ = validateTasks tasks :=
    if_neg notEmpty
  have parallelChecks : ParallelInput.validate ⟨tasks, .continue, 1⟩ = validateTasks tasks :=
    if_neg notEmpty
  rw [pipeline, parallel, pipelineChecks, parallelChecks]
  cases validateTasks tasks with
  | error e => exact rfl
  | ok _ =>
      have oneAtATime : (fanOut 1 (enumerate tasks) : TaskProgram I O _) =
          oneByOne (enumerate tasks) := buffered_one (enumerate_increasing tasks)
      dsimp only
      rw [pipelineLoop_eq (enumerate_positions tasks), oneAtATime]
      rfl

/-- Behind the patterns there is one fan-out: the loops and the pipeline that goes on
make the calls of a parallel batch and aggregate as it does, sequential ones under a cap
of one, in every world. -/
theorem patterns_agree :
    (∀ (input : LoopInput I) (substitutor : Substitutor I), input.validate = .ok () →
      (∀ task ∈ input.inputs substitutor, Valid task) →
      (runLoop input substitutor : TaskProgram I O _) =
        asLoop input.items.length <$> parallel ⟨input.inputs substitutor, input.failureStrategy,
          effectiveCap input.parallel input.maxInFlight⟩) ∧
    (∀ (input : ParameterizedLoopInput I) (substitutor : Substitutor I),
      input.validate = .ok () → (∀ task ∈ input.inputs substitutor, Valid task) →
      (parameterizedLoop input substitutor : TaskProgram I O _) =
        asLoop (generateParameterCombinations input.parameters).length <$>
          parallel ⟨input.inputs substitutor, input.failureStrategy,
            effectiveCap input.parallel input.maxInFlight⟩) ∧
    ∀ (tasks : List I) (cleanup : Bool), tasks ≠ [] →
      (pipeline ⟨tasks, false, cleanup⟩ : TaskProgram I O _) =
        parallel ⟨tasks, .continue, 1⟩ :=
  ⟨fun _ _ accepted valid => runLoop_eq accepted valid,
    fun _ _ accepted valid => parameterizedLoop_eq accepted valid,
    fun _ cleanup isSome => pipeline_eq isSome cleanup⟩

/-- Two items, called one after the other. -/
def twoItems : LoopInput Task := { items := ["a", "b"], template := ⟨true⟩ }

/-- A loop over two items, one at a time. -/
theorem patterns_agree_twoItems :
    (runLoop twoItems (fun template _ _ _ => template) : TaskProgram Task StepResult _) =
      asLoop 2 <$> parallel ⟨[⟨true⟩, ⟨true⟩], .continue, 1⟩ :=
  patterns_agree.1 twoItems (fun template _ _ _ => template) (by decide) (by decide)

end AltairRs.Wf
