import Mathlib.Algebra.Order.Floor.Div
import AltairRs.Wf.Datasync.Sync

/-!
# The fault-free continue-as-new chain

`faultFree` answers every call of a sync: it lists one plan, keeps a durable
cursor, and produces partition results from an arbitrary backend. Repeating the
sync while it reports deferred work handles the plan chunk by chunk.
-/

namespace AltairRs.Wf.Datasync

open Effect

variable {K σ : Type}

/-- Every call succeeds; `run` may depend on everything run so far. -/
def faultFree (parts : List (Partition K))
    (run : σ → Partition K → PartitionResult K × σ) : Handler (syncSignature K) (Option K × σ)
  | state, .listPartitions => (.ok parts, state)
  | state, .readCursor => (.ok state.1, state)
  | state, .runPartition partition =>
      let ran := run state.2 partition
      (.ok ran.1, (state.1, ran.2))
  | state, .advance completed => (.ok (), (some completed, state.2))
  | state, .sleeper _ => ((), state)

/-- The caller issues continue-as-new when the summary is flagged as deferred. -/
def continuesAsNew : Result (ChunkedSyncSummary K) → Bool
  | .ok summary => summary.deferred
  | .error _ => false

/-- The results and backend after running partitions in order. -/
def runAll (run : σ → Partition K → PartitionResult K × σ) :
    σ → List (Partition K) → List (PartitionResult K) × σ
  | backend, [] => ([], backend)
  | backend, partition :: rest =>
      let ran := run backend partition
      let later := runAll run ran.2 rest
      (ran.1 :: later.1, later.2)

/-- The calls of the loop at position `i` of `n`. -/
def loopCalls (config : ChunkedSyncConfig) (n : Nat) :
    Nat → List (Partition K) → List (SyncOp K)
  | _, [] => []
  | i, partition :: rest =>
      .runPartition partition :: .advance partition.endKey ::
        ((if i < n - 1 ∧ config.partitionSleep ≠ 0 then [.sleeper config.partitionSleep] else []) ++
          loopCalls config n (i + 1) rest)

/-- The calls of one execution that handles exactly `chunk`. -/
def executionCalls (config : ChunkedSyncConfig) (chunk : List (Partition K)) :
    List (SyncOp K) :=
  .listPartitions :: .readCursor :: loopCalls config chunk.length 0 chunk

/-- The calls of a trace, without their answers. -/
def calls (events : List (Event (syncSignature K))) : List (SyncOp K) :=
  events.map (·.operation)

/-- The partition result an event delivers, if it is a successful run. -/
def deliveredResult : Event (syncSignature K) → Option (PartitionResult K)
  | ⟨.runPartition _, .ok result⟩ => some result
  | _ => none

/-- The partition results of a trace, in order. -/
def delivered (events : List (Event (syncSignature K))) : List (PartitionResult K) :=
  events.filterMap deliveredResult

/-- Calls that run a partition or advance the cursor. -/
def SyncOp.isWork : SyncOp K → Bool
  | .runPartition _ => true
  | .advance _ => true
  | _ => false

/-- The work a list of partitions calls for: run each one, then advance past it. -/
def workCalls (parts : List (Partition K)) : List (SyncOp K) :=
  parts.flatMap fun partition => [.runPartition partition, .advance partition.endKey]

/-- The cursor after a list of partitions. -/
def cursorAfter (cursor : Option K) (parts : List (Partition K)) : Option K :=
  match parts.getLast? with
  | some last => some last.endKey
  | none => cursor

/-- Record results one after the other. -/
def ChunkedSyncSummary.recordAll (summary : ChunkedSyncSummary K)
    (results : List (PartitionResult K)) : ChunkedSyncSummary K :=
  results.foldl ChunkedSyncSummary.record summary

/-- A summary counter that adds up a count of the recorded results. -/
structure SumsOver (total : ChunkedSyncSummary K → Nat) (count : PartitionResult K → Nat) :
    Prop where
  start : ∀ jobName, total { jobName := jobName } = 0
  step : ∀ summary result, total (summary.record result) = total summary + count result
  flag : ∀ summary deferred, total { summary with deferred := deferred } = total summary

/-- Every partition counts one. -/
theorem SumsOver.partitions : SumsOver (K := K) (·.totalPartitions) (fun _ => 1) :=
  ⟨fun _ => rfl, fun _ _ => rfl, fun _ _ => rfl⟩

/-- What is fetched adds up. -/
theorem SumsOver.fetched : SumsOver (K := K) (·.totalFetched) (·.fetched) :=
  ⟨fun _ => rfl, fun _ _ => rfl, fun _ _ => rfl⟩

/-- What is inserted adds up. -/
theorem SumsOver.inserted : SumsOver (K := K) (·.totalInserted) (·.inserted) :=
  ⟨fun _ => rfl, fun _ _ => rfl, fun _ _ => rfl⟩

/-- What is updated adds up. -/
theorem SumsOver.updated : SumsOver (K := K) (·.totalUpdated) (·.updated) :=
  ⟨fun _ => rfl, fun _ _ => rfl, fun _ _ => rfl⟩

/-- What is skipped adds up. -/
theorem SumsOver.skipped : SumsOver (K := K) (·.totalSkipped) (·.skipped) :=
  ⟨fun _ => rfl, fun _ _ => rfl, fun _ _ => rfl⟩

/-- Recording raises a counter by the sum of its counts. -/
theorem SumsOver.recordAll {total : ChunkedSyncSummary K → Nat} {count : PartitionResult K → Nat}
    (sums : SumsOver total count) (summary : ChunkedSyncSummary K)
    (results : List (PartitionResult K)) :
    total (summary.recordAll results) = total summary + (results.map count).sum := by
  induction results generalizing summary with
  | nil => rfl
  | cons result rest ih =>
      have later := ih (summary.record result)
      rw [sums.step] at later
      simp only [ChunkedSyncSummary.recordAll, List.foldl_cons, List.map_cons,
        List.sum_cons] at later ⊢
      omega

/-- The cursor moves partition by partition. -/
theorem cursorAfter_cons (cursor : Option K) (partition : Partition K)
    (rest : List (Partition K)) :
    cursorAfter cursor (partition :: rest) = cursorAfter (some partition.endKey) rest := by
  cases rest with
  | nil => rfl
  | cons next rest => simp [cursorAfter, List.getLast?_cons]

/-- The events of the delay after partition `i` of `n`. -/
def sleepEvents (config : ChunkedSyncConfig) (n i : Nat) : List (Event (syncSignature K)) :=
  if i < n - 1 ∧ config.partitionSleep ≠ 0 then
    [⟨.sleeper config.partitionSleep, ()⟩]
  else
    []

/-- One turn of the loop: the partition runs, the cursor advances, and the rest
of the loop follows after the delay. -/
theorem partitionLoop_eval_cons (parts : List (Partition K))
    (run : σ → Partition K → PartitionResult K × σ) (config : ChunkedSyncConfig) (n i : Nat)
    (partition : Partition K) (rest : List (Partition K)) (summary : ChunkedSyncSummary K)
    (cursor : Option K) (backend : σ) :
    (faultFree parts run).eval (partitionLoop config .some n i (partition :: rest) summary)
        (cursor, backend) =
      let ran := run backend partition
      let later := (faultFree parts run).eval
        (partitionLoop config .some n (i + 1) rest (summary.record ran.1))
        (some partition.endKey, ran.2)
      { later with
        events := ⟨.runPartition partition, .ok ran.1⟩ :: ⟨.advance partition.endKey, .ok ()⟩ ::
          (sleepEvents config n i ++ later.events) } := by
  have delay : ∀ state, (faultFree parts run).eval (sleepBetween config n i) state =
      ⟨sleepEvents config n i, (), state⟩ := by
    intro state
    unfold sleepBetween sleepEvents
    split <;> rfl
  have turn : (faultFree parts run).eval
        (partitionLoop config .some n i (partition :: rest) summary) (cursor, backend) =
      let ran := run backend partition
      let later := (faultFree parts run).eval
        (sleepBetween config n i >>= fun _ =>
          partitionLoop config .some n (i + 1) rest (summary.record ran.1))
        (some partition.endKey, ran.2)
      { later with
        events := ⟨.runPartition partition, .ok ran.1⟩ :: ⟨.advance partition.endKey, .ok ()⟩ ::
          later.events } := rfl
  rw [turn]
  simp only [Handler.eval_bind, delay]

/-- What one loop leaves under `faultFree`. -/
theorem partitionLoop_eval (parts : List (Partition K))
    (run : σ → Partition K → PartitionResult K × σ) (config : ChunkedSyncConfig) (n i : Nat)
    (todo : List (Partition K)) (summary : ChunkedSyncSummary K) (cursor : Option K)
    (backend : σ) :
    let outcome := (faultFree parts run).eval (partitionLoop config .some n i todo summary)
      (cursor, backend)
    calls outcome.events = loopCalls config n i todo ∧
      delivered outcome.events = (runAll run backend todo).1 ∧
      outcome.value = .ok (summary.recordAll (runAll run backend todo).1) ∧
      outcome.state = (cursorAfter cursor todo, (runAll run backend todo).2) := by
  induction todo generalizing i summary cursor backend with
  | nil => exact ⟨rfl, rfl, rfl, rfl⟩
  | cons partition rest ih =>
      obtain ⟨called, results, value, state⟩ := ih (i + 1)
        (summary.record (run backend partition).1) (some partition.endKey) (run backend partition).2
      have quiet : delivered (sleepEvents (K := K) config n i) = [] := by
        unfold sleepEvents
        split <;> rfl
      rw [partitionLoop_eval_cons]
      refine ⟨?_, ?_, value, ?_⟩
      · simp only [calls, List.map_cons, List.map_append] at called ⊢
        rw [called, loopCalls]
        unfold sleepEvents
        split <;> rfl
      · simp only [delivered, List.filterMap_cons, List.filterMap_append] at results quiet ⊢
        rw [quiet, results]
        rfl
      · rw [cursorAfter_cons]
        exact state

/-- The summary of an execution that delivered `results`. -/
def executionSummary (config : ChunkedSyncConfig) (results : List (PartitionResult K))
    (deferred : Bool) : ChunkedSyncSummary K :=
  { ChunkedSyncSummary.recordAll { jobName := config.jobName } results with deferred := deferred }

/-- What one execution that handles `chunk` leaves. -/
structure Handles (run : σ → Partition K → PartitionResult K × σ) (config : ChunkedSyncConfig)
    (chunk : List (Partition K)) (deferred : Bool) (cursor : Option K) (backend : σ)
    (traced : List (SyncOp K))
    (outcome : Outcome (syncSignature K) (Option K × σ) (Result (ChunkedSyncSummary K))) :
    Prop where
  calls : calls outcome.events = traced
  delivered : delivered outcome.events = (runAll run backend chunk).1
  value : outcome.value = .ok (executionSummary config (runAll run backend chunk).1 deferred)
  state : outcome.state = (cursorAfter cursor chunk, (runAll run backend chunk).2)

/-- Processing handles the first `max` partitions and flags whether any remain. -/
theorem processPartitions_handles (parts : List (Partition K))
    (run : σ → Partition K → PartitionResult K × σ) (config : ChunkedSyncConfig)
    (capped : 0 < config.maxPartitionsPerExecution) (todo : List (Partition K))
    (cursor : Option K) (backend : σ) :
    Handles run config (todo.take config.maxPartitionsPerExecution)
      (decide (config.maxPartitionsPerExecution < todo.length)) cursor backend
      (loopCalls config (todo.take config.maxPartitionsPerExecution).length 0
        (todo.take config.maxPartitionsPerExecution))
      ((faultFree parts run).eval
        (processPartitions config .some todo { jobName := config.jobName }) (cursor, backend)) := by
  have chosen : (if decide (0 < config.maxPartitionsPerExecution ∧
      config.maxPartitionsPerExecution < todo.length) = true then
        todo.take config.maxPartitionsPerExecution else todo) =
      todo.take config.maxPartitionsPerExecution := by
    split
    · rfl
    · rename_i whole
      have short : todo.length ≤ config.maxPartitionsPerExecution := by
        simp only [capped, true_and, decide_eq_true_eq] at whole
        omega
      exact (List.take_of_length_le short).symm
  obtain ⟨called, results, value, state⟩ := partitionLoop_eval parts run config
    (todo.take config.maxPartitionsPerExecution).length 0
    (todo.take config.maxPartitionsPerExecution) { jobName := config.jobName } cursor backend
  unfold processPartitions
  simp only [chosen, Handler.eval_bind, value, state]
  simp only [capped, true_and]
  constructor
  · simpa [Handler.eval] using called
  · simpa [Handler.eval] using results
  · rfl
  · rfl

variable [LinearOrder K]

/-- One execution from a cursor that leaves `todo` handles its first `max`. -/
theorem chunkedSyncRun_handles (parts : List (Partition K))
    (run : σ → Partition K → PartitionResult K × σ) (config : ChunkedSyncConfig)
    (capped : 0 < config.maxPartitionsPerExecution) (todo : List (Partition K))
    (cursor : Option K) (backend : σ) (left : cursorFilter cursor parts = todo)
    (some : todo ≠ []) :
    Handles run config (todo.take config.maxPartitionsPerExecution)
      (decide (config.maxPartitionsPerExecution < todo.length)) cursor backend
      (executionCalls config (todo.take config.maxPartitionsPerExecution))
      ((faultFree parts run).eval (chunkedSyncRun config .some) (cursor, backend)) := by
  have nonempty : parts.isEmpty = false := by
    cases parts with
    | nil => cases cursor <;> exact absurd left.symm some
    | cons _ _ => rfl
  have remaining : todo.isEmpty = false := List.isEmpty_eq_false_iff.mpr some
  have processed := processPartitions_handles parts run config capped todo cursor backend
  have unrolled : (faultFree parts run).eval (chunkedSyncRun config .some) (cursor, backend) =
      let later := (faultFree parts run).eval
        (processPartitions config .some todo { jobName := config.jobName }) (cursor, backend)
      { later with
        events := ⟨.listPartitions, .ok parts⟩ :: ⟨.readCursor, .ok cursor⟩ :: later.events } := by
    have listed :
        ∀ next : Result (List (Partition K)) → SyncProgram K (Result (ChunkedSyncSummary K)),
        (faultFree parts run).eval (listPartitions >>= next) (cursor, backend) =
          let later := (faultFree parts run).eval (next (.ok parts)) (cursor, backend)
          { later with events := ⟨.listPartitions, .ok parts⟩ :: later.events } := fun _ => rfl
    have read : ∀ next : Result (Option K) → SyncProgram K (Result (ChunkedSyncSummary K)),
        (faultFree parts run).eval (readCursor >>= next) (cursor, backend) =
          let later := (faultFree parts run).eval (next (.ok cursor)) (cursor, backend)
          { later with events := ⟨.readCursor, .ok cursor⟩ :: later.events } := fun _ => rfl
    rw [chunkedSyncRun_some, listed]
    simp only [nonempty, Bool.false_eq_true, if_false, read, left, remaining]
  rw [unrolled]
  refine ⟨?_, ?_, processed.value, processed.state⟩
  · have called := processed.calls
    simp only [calls, List.map_cons] at called ⊢
    rw [called]
    rfl
  · exact processed.delivered

/-- The cursor a plan's prefix leaves keeps exactly the rest of the plan. -/
theorem cursorFilter_cursorAfter (plan : PartitionPlan K) (cursor : Option K)
    (finished todo : List (Partition K)) (split : plan.parts = finished ++ todo)
    (nonempty : finished ≠ []) :
    cursorFilter (cursorAfter cursor finished) plan.parts = todo := by
  obtain ⟨before, last, rfl⟩ := (List.eq_nil_or_concat finished).resolve_left nonempty
  have after : cursorAfter cursor (before.concat last) = some last.endKey := by
    simp [cursorAfter]
  have proper := plan.proper
  have disjoint := plan.disjoint
  rw [split] at proper disjoint
  have keeps : ∀ partition ∈ todo, last.endKey ≤ partition.start := by
    intro partition member
    exact (List.pairwise_append.mp disjoint).2.2 last (by simp) partition member
  have drops : ∀ partition ∈ before.concat last, ¬ last.endKey ≤ partition.start := by
    intro partition member
    have partitionProper : partition.start < partition.endKey :=
      proper partition (List.mem_append_left _ member)
    rw [List.concat_eq_append] at member disjoint
    rcases List.mem_append.mp member with earlier | isLast
    · have lastProper : last.start < last.endKey := proper last (by simp)
      have first := (List.pairwise_append.mp disjoint).1
      have inOrder : partition.endKey ≤ last.start :=
        (List.pairwise_append.mp first).2.2 partition earlier last (by simp)
      exact not_le.mpr ((partitionProper.trans_le inOrder).trans lastProper)
    · rw [List.mem_singleton] at isLast
      subst isLast
      exact not_le.mpr partitionProper
  rw [after, split]
  change List.filter _ _ = _
  rw [List.filter_append]
  have gone : (before.concat last).filter (fun partition => decide (last.endKey ≤ partition.start))
      = [] := by
    rw [List.filter_eq_nil_iff]
    intro partition member
    simpa using drops partition member
  have stay : todo.filter (fun partition => decide (last.endKey ≤ partition.start)) = todo := by
    rw [List.filter_eq_self]
    intro partition member
    simpa using keeps partition member
  rw [gone, stay, List.nil_append]

omit [LinearOrder K]

/-- The calls for partitions are those of their parts. -/
theorem workCalls_append (first second : List (Partition K)) :
    workCalls (first ++ second) = workCalls first ++ workCalls second := by
  simp [workCalls]

/-- The work of one execution is the work of its chunk. -/
theorem filter_executionCalls (config : ChunkedSyncConfig) (chunk : List (Partition K)) :
    (executionCalls config chunk).filter SyncOp.isWork = workCalls chunk := by
  have loop : ∀ n i, (loopCalls config n i chunk).filter SyncOp.isWork = workCalls chunk := by
    intro n i
    induction chunk generalizing i with
    | nil => rfl
    | cons partition rest ih =>
        have later := ih (i + 1)
        simp only [loopCalls, List.filter_cons, List.filter_append, SyncOp.isWork, if_true, later]
        split <;> rfl
  exact loop chunk.length 0

/-- Every partition has a result. -/
theorem runAll_length (run : σ → Partition K → PartitionResult K × σ) (backend : σ)
    (chunk : List (Partition K)) : (runAll run backend chunk).1.length = chunk.length := by
  induction chunk generalizing backend with
  | nil => rfl
  | cons partition rest ih => simp [runAll, ih]

/-- A counter of an execution's summary sums over the results it delivered. -/
theorem SumsOver.executionSummary {total : ChunkedSyncSummary K → Nat}
    {count : PartitionResult K → Nat} (sums : SumsOver total count)
    (config : ChunkedSyncConfig) (results : List (PartitionResult K)) (deferred : Bool) :
    total (executionSummary config results deferred) = (results.map count).sum := by
  unfold Datasync.executionSummary
  rw [sums.flag, sums.recordAll, sums.start, Nat.zero_add]

/-- What a chain of executions that works through `todo` and then stops leaves. -/
structure Drains (config : ChunkedSyncConfig) (todo : List (Partition K))
    (outcomes : List (Outcome (syncSignature K) (Option K × σ) (Result (ChunkedSyncSummary K))))
    (summaries : List (ChunkedSyncSummary K)) : Prop where
  values : outcomes.map (·.value) = summaries.map .ok
  count : outcomes.length = todo.length ⌈/⌉ config.maxPartitionsPerExecution
  chunked : ∃ chunks : List (List (Partition K)), chunks.flatten = todo ∧
    outcomes.map (fun outcome => calls outcome.events) = chunks.map (executionCalls config)
  work : (calls (outcomes.flatMap (·.events))).filter SyncOp.isWork = workCalls todo
  deferred : ∃ earlier : List (ChunkedSyncSummary K), ∃ last, summaries = earlier ++ [last] ∧
    (∀ summary ∈ earlier, summary.deferred = true) ∧ last.deferred = false
  results : (delivered (outcomes.flatMap (·.events))).length = todo.length
  totals : ∀ total count, SumsOver total count →
    (summaries.map total).sum = ((delivered (outcomes.flatMap (·.events))).map count).sum

variable {run : σ → Partition K → PartitionResult K × σ} {config : ChunkedSyncConfig}
  {cursor : Option K} {backend : σ}
  {outcome : Outcome (syncSignature K) (Option K × σ) (Result (ChunkedSyncSummary K))}

/-- The last execution handles all that is left. -/
theorem Drains.single {todo : List (Partition K)} (nonempty : todo ≠ [])
    (fits : todo.length ≤ config.maxPartitionsPerExecution)
    (handles : Handles run config todo false cursor backend (executionCalls config todo) outcome) :
    Drains config todo [outcome] [executionSummary config (runAll run backend todo).1 false] where
  values := by simp [handles.value]
  count := by
    have positive : 0 < todo.length := List.length_pos_iff.mpr nonempty
    rw [Nat.ceilDiv_eq_add_pred_div, List.length_singleton]
    exact (Nat.div_eq_of_lt_le (by omega) (by omega)).symm
  chunked := ⟨[todo], by simp, by simp [handles.calls]⟩
  work := by simp [handles.calls, filter_executionCalls]
  deferred := ⟨[], _, rfl, by simp, rfl⟩
  results := by simp [handles.delivered, runAll_length]
  totals := fun total count sums => by simp [handles.delivered, sums.executionSummary]

/-- A deferring execution handles one full chunk and leaves the rest to the chain. -/
theorem Drains.cons {chunk rest : List (Partition K)}
    {outcomes : List (Outcome (syncSignature K) (Option K × σ) (Result (ChunkedSyncSummary K)))}
    {summaries : List (ChunkedSyncSummary K)}
    (capped : 0 < config.maxPartitionsPerExecution)
    (full : chunk.length = config.maxPartitionsPerExecution)
    (handles : Handles run config chunk true cursor backend (executionCalls config chunk) outcome)
    (drains : Drains config rest outcomes summaries) :
    Drains config (chunk ++ rest) (outcome :: outcomes)
      (executionSummary config (runAll run backend chunk).1 true :: summaries) where
  values := by simp [handles.value, drains.values]
  count := by
    rw [List.length_cons, drains.count, Nat.ceilDiv_eq_add_pred_div, Nat.ceilDiv_eq_add_pred_div,
      List.length_append, full, ← Nat.add_div_right _ capped]
    congr 1
    omega
  chunked := by
    obtain ⟨chunks, whole, traced⟩ := drains.chunked
    exact ⟨chunk :: chunks, by simp [whole], by simp [handles.calls, traced]⟩
  work := by
    have first := filter_executionCalls config chunk
    have later := drains.work
    rw [← handles.calls] at first
    simp only [calls] at first later
    simp [calls, workCalls_append, first, later]
  deferred := by
    obtain ⟨earlier, last, same, flagged, finished⟩ := drains.deferred
    refine ⟨_ :: earlier, last, by rw [same]; rfl, ?_, finished⟩
    intro summary member
    rcases List.mem_cons.mp member with rfl | later
    · rfl
    · exact flagged summary later
  results := by
    have first := handles.delivered
    have later := drains.results
    simp only [delivered] at first later
    simp [delivered, first, later, runAll_length]
  totals := fun total count sums => by
    have first := handles.delivered
    have later := drains.totals total count sums
    simp only [delivered] at first later
    simp [delivered, first, later, sums.executionSummary]

variable [LinearOrder K]

/-- The cursor behind a chunk leaves what comes after it. -/
theorem cursorFilter_behind_chunk (plan : PartitionPlan K) (cursor : Option K)
    {finished chunk rest : List (Partition K)} (whole : plan.parts = (finished ++ chunk) ++ rest)
    (nonempty : chunk ≠ []) : cursorFilter (cursorAfter cursor chunk) plan.parts = rest := by
  have kept := cursorFilter_cursorAfter plan cursor (finished ++ chunk) rest whole
    (by simp [nonempty])
  have same : cursorAfter cursor (finished ++ chunk) = cursorAfter cursor chunk := by
    unfold cursorAfter
    rw [List.getLast?_append_of_ne_nil _ nonempty]
  rwa [same] at kept

/-- From any split of a plan the chain drains what the cursor leaves, with
exactly as much fuel as it has executions. Induction on what is left. -/
theorem chain_drains (plan : PartitionPlan K) (run : σ → Partition K → PartitionResult K × σ)
    (config : ChunkedSyncConfig) (capped : 0 < config.maxPartitionsPerExecution)
    (finished todo : List (Partition K)) (split : plan.parts = finished ++ todo)
    (nonempty : todo ≠ []) (cursor : Option K) (backend : σ)
    (left : cursorFilter cursor plan.parts = todo) :
    ∃ outcomes summaries, Drains (σ := σ) config todo outcomes summaries ∧
      ∀ fuel, (faultFree plan.parts run).repeatWhile (chunkedSyncRun config .some)
        continuesAsNew fuel (cursor, backend) =
          if outcomes.length ≤ fuel then some outcomes else none := by
  induction size : todo.length using Nat.strong_induction_on
    generalizing finished todo cursor backend with
  | _ size ih =>
  subst size
  have handles := chunkedSyncRun_handles plan.parts run config capped todo cursor backend left
    nonempty
  generalize outcomeIs : (faultFree plan.parts run).eval (chunkedSyncRun config .some)
    (cursor, backend) = outcome at handles
  by_cases more : config.maxPartitionsPerExecution < todo.length
  · -- The execution defers: the chain goes on from the cursor it leaves.
    rw [decide_eq_true more] at handles
    let chunk := todo.take config.maxPartitionsPerExecution
    let rest := todo.drop config.maxPartitionsPerExecution
    have full : chunk.length = config.maxPartitionsPerExecution :=
      List.length_take_of_le more.le
    have restNonempty : rest ≠ [] := by
      intro empty
      have sizes := congrArg List.length empty
      simp only [rest, List.length_drop, List.length_nil] at sizes
      omega
    have whole : plan.parts = (finished ++ chunk) ++ rest := by
      rw [List.append_assoc, List.take_append_drop]
      exact split
    have chunkNonempty : chunk ≠ [] := List.ne_nil_of_length_pos (by omega)
    have advanced := cursorFilter_behind_chunk plan cursor whole chunkNonempty
    have shorter : rest.length < todo.length := by
      simp only [rest, List.length_drop]
      omega
    obtain ⟨outcomes, summaries, drains, fueled⟩ := ih rest.length shorter (finished ++ chunk) rest
      whole restNonempty (cursorAfter cursor chunk) (runAll run backend chunk).2 advanced rfl
    have drained := Drains.cons capped full handles drains
    rw [List.take_append_drop] at drained
    refine ⟨outcome :: outcomes, _, drained, fun fuel => ?_⟩
    cases fuel with
    | zero => rfl
    | succ fuel =>
        simp only [Handler.repeatWhile, outcomeIs, handles.value, handles.state]
        rw [fueled fuel]
        by_cases enough : outcomes.length ≤ fuel <;>
          simp [continuesAsNew, executionSummary, enough]
  · -- Everything left fits: the execution does not defer and the chain stops.
    rw [decide_eq_false more, List.take_of_length_le (Nat.le_of_not_lt more)] at handles
    refine ⟨[outcome], _, Drains.single nonempty (Nat.le_of_not_lt more) handles, ?_⟩
    intro fuel
    cases fuel with
    | zero => rfl
    | succ fuel => simp [Handler.repeatWhile, outcomeIs, handles.value, continuesAsNew,
        executionSummary]

/-- Repeating a capped sync while it reports deferred work stops after exactly
`⌈n / max⌉` executions. Across the chain every partition runs once, in order,
each followed by its own advance, and the totals add up. -/
theorem chunkedSyncRun_chain (plan : PartitionPlan K)
    (run : σ → Partition K → PartitionResult K × σ) (backend : σ) (config : ChunkedSyncConfig)
    (nonempty : 1 ≤ plan.parts.length) (capped : 1 ≤ config.maxPartitionsPerExecution) :
    ∃ outcomes : List (Outcome (syncSignature K) (Option K × σ) (Result (ChunkedSyncSummary K))),
    ∃ summaries : List (ChunkedSyncSummary K),
      (∀ fuel, (faultFree plan.parts run).repeatWhile (chunkedSyncRun config .some)
        continuesAsNew fuel (none, backend) =
          if outcomes.length ≤ fuel then some outcomes else none) ∧
      outcomes.length = plan.parts.length ⌈/⌉ config.maxPartitionsPerExecution ∧
      outcomes.map (·.value) = summaries.map .ok ∧
      (∃ chunks : List (List (Partition K)), chunks.flatten = plan.parts ∧
        outcomes.map (fun outcome => calls outcome.events) =
          chunks.map (executionCalls config)) ∧
      (calls (outcomes.flatMap (·.events))).filter SyncOp.isWork =
        plan.parts.flatMap (fun partition =>
          [.runPartition partition, .advance partition.endKey]) ∧
      (∃ earlier last, summaries = earlier ++ [last] ∧
        (∀ summary ∈ earlier, summary.deferred = true) ∧ last.deferred = false) ∧
      let results := delivered (outcomes.flatMap (·.events))
      results.length = plan.parts.length ∧
      (summaries.map (·.totalPartitions)).sum = plan.parts.length ∧
      (summaries.map (·.totalFetched)).sum = (results.map (·.fetched)).sum ∧
      (summaries.map (·.totalInserted)).sum = (results.map (·.inserted)).sum ∧
      (summaries.map (·.totalUpdated)).sum = (results.map (·.updated)).sum ∧
      (summaries.map (·.totalSkipped)).sum = (results.map (·.skipped)).sum := by
  obtain ⟨outcomes, summaries, drains, fueled⟩ := chain_drains plan run config capped [] plan.parts
    rfl (List.ne_nil_of_length_pos nonempty) none backend rfl
  have counted : (summaries.map (·.totalPartitions)).sum = plan.parts.length := by
    simpa [drains.results] using drains.totals _ _ SumsOver.partitions
  exact ⟨outcomes, summaries, fueled, drains.count, drains.values, drains.chunked, drains.work,
    drains.deferred, drains.results, counted, drains.totals _ _ .fetched,
    drains.totals _ _ .inserted, drains.totals _ _ .updated, drains.totals _ _ .skipped⟩

/-- Two ranges under a cap of one take two executions. -/
theorem chunkedSyncRun_chain_two_partitions :
    ∃ outcomes, (faultFree twoPartitions.parts fun (ran : Nat) partition =>
        (⟨partition.start, partition.endKey, ran, ran, 0, 0⟩, ran + 1)).repeatWhile
          (chunkedSyncRun { jobName := "job", maxPartitionsPerExecution := 1 } .some)
          continuesAsNew 2 (none, 0) = some outcomes ∧ outcomes.length = 2 := by
  obtain ⟨outcomes, _, fueled, count, _⟩ := chunkedSyncRun_chain twoPartitions
    (fun (ran : Nat) partition =>
      (⟨partition.start, partition.endKey, ran, ran, 0, 0⟩, ran + 1)) 0
    { jobName := "job", maxPartitionsPerExecution := 1 } (by decide) (by decide)
  have two : outcomes.length = 2 := count
  exact ⟨outcomes, by rw [fueled, if_pos two.le], two⟩

end AltairRs.Wf.Datasync
