import AltairRs.Wf.ConcurrencyCap

/-!
# Failure accounting

What the output of a pattern that goes on after failures says of the outcomes of
its inputs. `Accounted` describes the five accumulators of an aggregation loop by
the outcomes they have seen; every turn of a loop keeps it, wherever the loop
stands in the source.
-/

namespace AltairRs.Wf

open Effect

variable {I O : Type} [TaskOutput O]

/-- The failures among some outcomes, each with its position and reason. -/
def failures (outcomes : List (Result O)) : List (Nat × String) :=
  outcomes.zipIdx.filterMap fun (outcome, i) => (failureOf outcome).map (i, ·)

/-- The last outcome is counted last. -/
theorem failures_concat (outcomes : List (Result O)) (outcome : Result O) :
    failures (outcomes ++ [outcome]) =
      failures outcomes ++ ((failureOf outcome).map (outcomes.length, ·)).toList := by
  rw [failures, List.zipIdx_append, List.filterMap_append]
  congr 1
  cases failure : failureOf outcome <;> simp [failure]

/-- A failure is an outcome that failed, with its reason. -/
theorem mem_failures {outcomes : List (Result O)} {i : Nat} {reason : String} :
    (i, reason) ∈ failures outcomes ↔
      ∃ outcome, outcomes[i]? = some outcome ∧ failureOf outcome = some reason := by
  rw [failures, List.mem_filterMap]
  constructor
  · rintro ⟨⟨outcome, position⟩, member, isFailure⟩
    obtain ⟨failure, isReason, pair⟩ := Option.map_eq_some_iff.mp isFailure
    cases pair
    exact ⟨outcome, List.mk_mem_zipIdx_iff_getElem?.mp member, isReason⟩
  · rintro ⟨outcome, there, isReason⟩
    refine ⟨(outcome, i), List.mk_mem_zipIdx_iff_getElem?.mpr there, ?_⟩
    exact Option.map_eq_some_iff.mpr ⟨reason, isReason, rfl⟩

/-- Positions of failures increase. -/
theorem failures_increasing (outcomes : List (Result O)) :
    ((failures outcomes).map Prod.fst).Pairwise (· < ·) := by
  have ordered : outcomes.zipIdx.Pairwise fun first second => first.2 < second.2 := by
    have positions : (outcomes.zipIdx.map Prod.snd).Pairwise (· < ·) := by
      rw [List.zipIdx_map_snd]
      exact List.pairwise_lt_range'
    exact List.pairwise_map.mp positions
  rw [List.pairwise_map, failures, List.pairwise_filterMap]
  refine ordered.imp ?_
  rintro ⟨outcome, i⟩ ⟨other, j⟩ less first isFirst second isSecond
  obtain ⟨reason, -, rfl⟩ := Option.map_eq_some_iff.mp isFirst
  obtain ⟨otherReason, -, rfl⟩ := Option.map_eq_some_iff.mp isSecond
  exact less

/-- The accumulators after the outcomes seen so far. -/
structure Accounted (seen : List (Result O)) (tally : Tally O) : Prop where
  results : tally.results = seen.filterMap Except.toOption
  failedIndices : tally.failedIndices = (failures seen).map Prod.fst
  failureReasons : tally.failureReasons = (failures seen).map Prod.snd
  totalFailed : tally.totalFailed = (failures seen).length
  total : tally.totalSuccess + tally.totalFailed = seen.length

/-- Nothing is counted at first. -/
theorem accounted_start : Accounted (O := O) [] {} := ⟨rfl, rfl, rfl, rfl, rfl⟩

omit [TaskOutput O] in
/-- What of the outcomes is kept, with one more outcome. -/
theorem kept_concat (seen : List (Result O)) (outcome : Result O) :
    (seen ++ [outcome]).filterMap Except.toOption =
      seen.filterMap Except.toOption ++ outcome.toOption.toList := by
  cases outcome <;> simp [Except.toOption]

/-- A failure, recorded with its position and reason. -/
theorem Accounted.concat_failure {seen : List (Result O)} {tally : Tally O} {outcome : Result O}
    {reason : String} (accounted : Accounted seen tally)
    (failure : failureOf outcome = some reason) :
    Accounted (seen ++ [outcome])
      { tally with
        results := tally.results ++ outcome.toOption.toList
        totalFailed := tally.totalFailed + 1
        failedIndices := tally.failedIndices ++ [seen.length]
        failureReasons := tally.failureReasons ++ [reason] } where
  results := by rw [accounted.results, kept_concat]
  failedIndices := by simp [failures_concat, failure, accounted.failedIndices]
  failureReasons := by simp [failures_concat, failure, accounted.failureReasons]
  totalFailed := by simp [failures_concat, failure, accounted.totalFailed]
  total := by
    rw [List.length_append, List.length_singleton, ← accounted.total]
    exact (Nat.add_assoc _ _ _).symm

/-- A success, counted and kept. -/
theorem Accounted.concat_success {seen : List (Result O)} {tally : Tally O} {outcome : Result O}
    (accounted : Accounted seen tally) (success : failureOf outcome = none) :
    Accounted (seen ++ [outcome])
      { tally with
        results := tally.results ++ outcome.toOption.toList
        totalSuccess := tally.totalSuccess + 1 } := by
  have sameFailures : failures (seen ++ [outcome]) = failures seen := by
    simp [failures_concat, success]
  refine ⟨?_, ?_, ?_, ?_, ?_⟩
  · rw [accounted.results, kept_concat]
  · rw [sameFailures]
    exact accounted.failedIndices
  · rw [sameFailures]
    exact accounted.failureReasons
  · rw [sameFailures]
    exact accounted.totalFailed
  · rw [List.length_append, List.length_singleton, ← accounted.total]
    exact Nat.add_right_comm _ _ _

/-- One turn: the outcome is recorded, and the accounts stay right. -/
theorem record_accounted {seen : List (Result O)} {tally : Tally O}
    (accounted : Accounted seen tally) (outcome : Result O) :
    ∃ next, tally.record false seen.length outcome = .ok next ∧
      Accounted (seen ++ [outcome]) next := by
  cases failure : failureOf outcome with
  | none => exact ⟨_, record_of_success failure .., accounted.concat_success failure⟩
  | some reason => exact ⟨_, record_of_failure failure .., accounted.concat_failure failure⟩

/-- The aggregation loop of the concurrent patterns and of the loops. -/
theorem aggregate_accounted {seen : List (Result O)} {tally : Tally O}
    (accounted : Accounted seen tally) (rest : List (Result O)) :
    ∃ final, aggregate false seen.length tally rest = .ok final ∧
      Accounted (seen ++ rest) final := by
  induction rest generalizing seen tally with
  | nil => exact ⟨tally, rfl, (List.append_nil seen).symm ▸ accounted⟩
  | cons outcome rest ih =>
      obtain ⟨next, recorded, nextAccounted⟩ := record_accounted accounted outcome
      obtain ⟨final, aggregated, finalAccounted⟩ := ih nextAccounted
      refine ⟨final, ?_, ?_⟩
      · rw [aggregate, recorded]
        rw [List.length_append] at aggregated
        exact aggregated
      · rw [List.append_assoc] at finalAccounted
        exact finalAccounted

/-- The loop of the pipeline, which records each outcome before the next call. -/
theorem pipelineLoop_accounted {outcome : Job I → Result O} {seen : List (Result O)}
    {tally : Tally O} (accounted : Accounted seen tally) {jobs : List (Job I)}
    (positions : jobs.map Job.index = List.range' seen.length jobs.length) :
    Settles (schedules outcome)
      (fun value _ => ∃ final, value = .ok final ∧ Accounted (seen ++ jobs.map outcome) final)
      (pipelineLoop false tally jobs) () := by
  induction jobs generalizing seen tally with
  | nil => exact ⟨tally, rfl, (List.append_nil seen).symm ▸ accounted⟩
  | cons job rest ih =>
      rw [List.map_cons, List.length_cons, List.range'_succ] at positions
      obtain ⟨here, later⟩ := List.cons.inj positions
      apply Settles.seq (executeOne_settles job)
      rintro _ _ rfl
      obtain ⟨next, recorded, nextAccounted⟩ := record_accounted accounted (outcome job)
      rw [here, recorded]
      have lengthNext : (seen ++ [outcome job]).length = seen.length + 1 := by
        rw [List.length_append, List.length_singleton]
      have onward := ih nextAccounted (lengthNext.symm ▸ later)
      rw [List.append_assoc] at onward
      exact onward

/-- What an output says of the outcomes of the inputs. -/
structure Accounts (outcomes : List (Result O)) (tally : Tally O) : Prop where
  results : tally.results = outcomes.filterMap Except.toOption
  increasing : tally.failedIndices.Pairwise (· < ·)
  failed : ∀ i, i ∈ tally.failedIndices ↔
    (∃ e, outcomes[i]? = some (.error e)) ∨
      ∃ out, outcomes[i]? = some (.ok out) ∧ TaskOutput.isSuccess out = false
  sameLength : tally.failureReasons.length = tally.failedIndices.length
  reasons : ∀ (j : Nat) (inside : j < tally.failedIndices.length),
    tally.failureReasons[j]? = outcomes[tally.failedIndices[j]]?.bind failureOf
  totalFailed : tally.totalFailed = tally.failedIndices.length
  total : tally.totalSuccess + tally.totalFailed = outcomes.length

/-- An outcome failed if it is an error or no success. -/
theorem exists_failureOf {outcome : Result O} :
    (∃ reason, failureOf outcome = some reason) ↔
      (∃ e, outcome = .error e) ∨ ∃ out, outcome = .ok out ∧ TaskOutput.isSuccess out = false := by
  cases outcome with
  | error e => simp [failureOf]
  | ok out => cases success : TaskOutput.isSuccess out <;> simp [failureOf, success]

/-- So the failures are the places of those. -/
theorem mem_failures_fst {outcomes : List (Result O)} {i : Nat} :
    i ∈ (failures outcomes).map Prod.fst ↔
      (∃ e, outcomes[i]? = some (.error e)) ∨
        ∃ out, outcomes[i]? = some (.ok out) ∧ TaskOutput.isSuccess out = false := by
  have isFailed : i ∈ (failures outcomes).map Prod.fst ↔
      ∃ outcome, outcomes[i]? = some outcome ∧ ∃ reason, failureOf outcome = some reason := by
    rw [List.mem_map]
    constructor
    · rintro ⟨⟨position, reason⟩, member, rfl⟩
      obtain ⟨outcome, there, isReason⟩ := mem_failures.mp member
      exact ⟨outcome, there, reason, isReason⟩
    · rintro ⟨outcome, there, reason, isReason⟩
      exact ⟨(i, reason), mem_failures.mpr ⟨outcome, there, isReason⟩, rfl⟩
  rw [isFailed]
  constructor
  · rintro ⟨outcome, there, hasReason⟩
    rcases exists_failureOf.mp hasReason with ⟨e, rfl⟩ | ⟨out, rfl, unsuccessful⟩
    · exact .inl ⟨e, there⟩
    · exact .inr ⟨out, there, unsuccessful⟩
  · rintro (⟨e, there⟩ | ⟨out, there, unsuccessful⟩)
    · exact ⟨_, there, exists_failureOf.mpr (.inl ⟨e, rfl⟩)⟩
    · exact ⟨_, there, exists_failureOf.mpr (.inr ⟨out, rfl, unsuccessful⟩)⟩

/-- The accounts of the accumulators, read position by position. -/
theorem Accounted.accounts {outcomes : List (Result O)} {tally : Tally O}
    (accounted : Accounted outcomes tally) : Accounts outcomes tally where
  results := accounted.results
  increasing := accounted.failedIndices ▸ failures_increasing outcomes
  failed := fun i => accounted.failedIndices ▸ mem_failures_fst
  sameLength := by
    rw [accounted.failureReasons, accounted.failedIndices, List.length_map, List.length_map]
  reasons := by
    simp only [accounted.failedIndices, accounted.failureReasons, List.getElem_map]
    intro j inside
    have listed : j < (failures outcomes).length := List.length_map _ ▸ inside
    have member : ((failures outcomes)[j].1, (failures outcomes)[j].2) ∈ failures outcomes :=
      List.getElem_mem listed
    obtain ⟨outcome, there, isReason⟩ := mem_failures.mp member
    rw [there, List.getElem?_map, List.getElem?_eq_getElem listed, Option.bind_some, isReason]
    rfl
  totalFailed := by rw [accounted.totalFailed, accounted.failedIndices, List.length_map]
  total := accounted.total

/-- The entry check fails the pattern, or the pattern returns an output as described. -/
def ChecksThen {T : Type} (check : Result Unit) (value : Result T) (post : T → Prop) : Prop :=
  match check with
  | .error e => value = .error e
  | .ok _ => ∃ output, value = .ok output ∧ post output

/-- An output accounts for the outcome of every input. -/
def AccountsFor (outcome : Job I → Result O) (inputs : List I) (tally : Tally O) : Prop :=
  Accounts ((enumerate inputs).map outcome) tally ∧
    tally.totalSuccess + tally.totalFailed = inputs.length

/-- A tally of all outcomes accounts for the inputs. -/
theorem Accounted.accountsFor {outcome : Job I → Result O} {inputs : List I} {tally : Tally O}
    (accounted : Accounted ((enumerate inputs).map outcome) tally) :
    AccountsFor outcome inputs tally := by
  refine ⟨accounted.accounts, accounted.total.trans ?_⟩
  rw [List.length_map, enumerate, List.length_mapIdx]

/-- In order, the outcomes are accounted for. -/
theorem aggregateInOrder_accountsFor (outcome : Job I → Result O) (inputs : List I) :
    ∃ tally, aggregateInOrder outcome .continue inputs = .ok tally ∧
      AccountsFor outcome inputs tally := by
  obtain ⟨tally, aggregated, accounted⟩ :=
    aggregate_accounted accounted_start ((enumerate inputs).map outcome)
  have inOrder := aggregate_enumerate outcome .continue inputs
  exact ⟨tally, inOrder.symm.trans aggregated, Accounted.accountsFor accounted⟩

/-- The output of a loop, which adds the number of its inputs. -/
theorem loopInOrder_accountsFor (outcome : Job I → Result O) {inputs : List I} {itemCount : Nat}
    (counted : itemCount = inputs.length) :
    ∃ output, ((do
        let tally ← aggregateInOrder outcome .continue inputs
        return { tally with itemCount := itemCount }) : Result (LoopOutput O)) = .ok output ∧
      AccountsFor outcome inputs output.toTally ∧ output.itemCount = inputs.length := by
  obtain ⟨tally, aggregated, accounts⟩ := aggregateInOrder_accountsFor outcome inputs
  rw [aggregated]
  exact ⟨{ tally with itemCount := itemCount }, rfl, accounts, counted⟩

variable [TaskInput I]

/-- A pipeline that does not stop accounts for its tasks. -/
theorem pipeline_accounting (outcome : Job I → Result O) (input : PipelineInput I) :
    Settles (schedules outcome)
      (fun value _ => ChecksThen input.validate value (AccountsFor outcome input.tasks))
      (pipeline { input with stopOnError := false }) () := by
  have sameCheck : PipelineInput.validate { input with stopOnError := false } =
      input.validate := rfl
  rw [pipeline, sameCheck]
  cases input.validate with
  | error e => exact rfl
  | ok _ =>
      apply (pipelineLoop_accounted accounted_start (enumerate_positions input.tasks)).mono
      rintro value _ ⟨tally, rfl, accounted⟩
      exact ⟨tally, rfl, Accounted.accountsFor accounted⟩

/-- So do parallel tasks that continue. -/
theorem parallel_accounting (outcome : Job I → Result O) (input : ParallelInput I) :
    Settles (schedules outcome)
      (fun value _ => ChecksThen input.validate value (AccountsFor outcome input.tasks))
      (parallel { input with failureStrategy := .continue }) () := by
  apply (parallel_settles _).mono
  rintro value _ rfl
  have sameCheck : ParallelInput.validate { input with failureStrategy := .continue } =
      input.validate := rfl
  rw [parallelInOrder, sameCheck]
  cases input.validate with
  | error e => exact rfl
  | ok _ => exact aggregateInOrder_accountsFor outcome input.tasks

/-- So does a loop over items. -/
theorem runLoop_accounting (outcome : Job I → Result O) (input : LoopInput I)
    (substitutor : Substitutor I) :
    Settles (schedules outcome)
      (fun value _ => ChecksThen input.validate value fun output =>
        AccountsFor outcome (input.inputs substitutor) output.toTally ∧
          output.itemCount = (input.inputs substitutor).length)
      (runLoop { input with failureStrategy := .continue } substitutor) () := by
  apply (runLoop_settles _ substitutor).mono
  rintro value _ rfl
  have sameCheck : LoopInput.validate { input with failureStrategy := .continue } =
      input.validate := rfl
  rw [runLoopInOrder, sameCheck]
  cases input.validate with
  | error e => exact rfl
  | ok _ => exact loopInOrder_accountsFor outcome (List.length_mapIdx).symm

/-- So does a loop over parameters. -/
theorem parameterizedLoop_accounting (outcome : Job I → Result O)
    (input : ParameterizedLoopInput I) (substitutor : Substitutor I) :
    Settles (schedules outcome)
      (fun value _ => ChecksThen input.validate value fun output =>
        AccountsFor outcome (input.inputs substitutor) output.toTally ∧
          output.itemCount = (input.inputs substitutor).length)
      (parameterizedLoop { input with failureStrategy := .continue } substitutor) () := by
  apply (parameterizedLoop_settles _ substitutor).mono
  rintro value _ rfl
  have sameCheck : ParameterizedLoopInput.validate { input with failureStrategy := .continue } =
      input.validate := rfl
  rw [parameterizedLoopInOrder, sameCheck]
  cases input.validate with
  | error e => exact rfl
  | ok _ => exact loopInOrder_accountsFor outcome (List.length_mapIdx).symm

/-- The outputs of the patterns that go on after failures account for them, under every
scheduler: the kept outputs in input order, the positions of exactly the failures in increasing
order, a reason for each of them, and the counts. -/
theorem failure_accounting (outcome : Job I → Result O) :
    (∀ input : PipelineInput I,
      Settles (schedules outcome)
        (fun value _ => ChecksThen input.validate value (AccountsFor outcome input.tasks))
        (pipeline { input with stopOnError := false }) ()) ∧
    (∀ input : ParallelInput I,
      Settles (schedules outcome)
        (fun value _ => ChecksThen input.validate value (AccountsFor outcome input.tasks))
        (parallel { input with failureStrategy := .continue }) ()) ∧
    (∀ (input : LoopInput I) (substitutor : Substitutor I),
      Settles (schedules outcome)
        (fun value _ => ChecksThen input.validate value fun output =>
          AccountsFor outcome (input.inputs substitutor) output.toTally ∧
            output.itemCount = (input.inputs substitutor).length)
        (runLoop { input with failureStrategy := .continue } substitutor) ()) ∧
    (∀ (input : ParameterizedLoopInput I) (substitutor : Substitutor I),
      Settles (schedules outcome)
        (fun value _ => ChecksThen input.validate value fun output =>
          AccountsFor outcome (input.inputs substitutor) output.toTally ∧
            output.itemCount = (input.inputs substitutor).length)
        (parameterizedLoop { input with failureStrategy := .continue } substitutor) ()) :=
  ⟨pipeline_accounting outcome, parallel_accounting outcome, runLoop_accounting outcome,
    parameterizedLoop_accounting outcome⟩

end AltairRs.Wf
