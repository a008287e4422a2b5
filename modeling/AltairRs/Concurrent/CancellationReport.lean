import Mathlib.Data.List.Perm.Basic
import AltairRs.Concurrent.InFlight
import AltairRs.Concurrent.Signalling

/-!
# Reporting a cancellation

The caller may cancel the token it gave at any moment relative to the completions. A
batch that was cancelled before all its tasks had completed is not a success. The
fail-fast loop looks at the token after every outcome; the loop for partial results
never does, and the module settles for which of its batches that shows.
-/

namespace AltairRs.Concurrent

open Effect Keyed Relation

variable {T E : Type} {cancels : Nat → Prop} {token set : Nat}

/-- At some moment of the run the token was cancelled, and not all of the tasks that
hold it had completed. -/
def CancelledBefore (events : List (Event (runtimeSignature T E))) (token : Nat)
    (final : Recorded (Runtime T E)) : Prop :=
  ∃ moment ∈ final.moments, moment.cancelled token = true ∧ PendingWith events token moment

/-- Whenever the caller's token was cancelled before all tasks had completed the executor
returns an error, and while nobody cancels that token it does not report a cancellation. -/
def AnyExecutor.ReportsCancellation (executor : AnyExecutor T E) : Prop :=
  (∀ token, executor.cancellation = some token → ∀ start events value final,
    Returns (calls fun _ => True).recorded executor.run { now := start } events value final →
      CancelledBefore events token final → ∃ e, value = some (.error e)) ∧
  ∀ start events value final,
    (∀ token, executor.cancellation = some token → start.cancelled token = false) →
      Returns (runtime Quiet) executor.run start events value final →
        ∃ result, value = some result ∧ ∀ e, result = .error e → e ≠ .cancelled

/-- The batch gathers partial results under the caller's token, and may gather them all
although the token was cancelled before. -/
def AnyExecutor.MissesCancellation : AnyExecutor T E → Prop
  | .failFast _ => False
  | .withPartialResults executor => executor.cancellation.isSome ∧
      (∀ entry ∈ executor.tasks.entries,
        ∃ isCancelled result, entry.2 isCancelled (.returned result)) ∧
      ∃ entry ∈ executor.tasks.entries, ∃ result, entry.2 true (.returned result)

/-- A batch whose results were gathered after a cancellation that came before all tasks
had completed may miss one. -/
theorem missesCancellation_of_gathered {executor : AnyExecutor T E}
    {events : List (Event (runtimeSignature T E))} {final : Recorded (Runtime T E)}
    (given : executor.cancellation = some token)
    (own : ∀ event ∈ events, SpawnsOnly executor.tasks.entries token set event.operation)
    (onRecord : OnRecord cancels executor.tasks.entries token set final)
    (isEmpty : (final.now.joinSet set).isEmpty = true)
    (gathers : executor.Gathers token set final)
    (cancelledBefore : CancelledBefore events token final) : executor.MissesCancellation := by
  obtain ⟨moment, member, isCancelled, pending⟩ := cancelledBefore
  obtain ⟨-, name, isName, notCompleted⟩ := pending.own own
  obtain ⟨⟨_, pendingTask⟩, isTask, rfl⟩ := List.mem_map.mp isName
  cases executor with
  | failFast executor => exact absurd (gathers moment member isCancelled _ isTask) notCompleted
  | withPartialResults executor =>
      refine ⟨?_, fun entry isEntry => ?_, ?_⟩
      · exact Option.isSome_iff_exists.mpr ⟨token, given⟩
      · obtain ⟨result, completed⟩ := onRecord.now.returned_of_mem isEmpty isEntry
        obtain ⟨task, isOther, ends⟩ := onRecord.now.completed _ completed
        have same : (entry.1, task) = entry :=
          List.inj_on_of_nodup_map executor.tasks.distinct isOther isEntry rfl
        rw [← same]
        rcases ends with uncancelled | ⟨late, -⟩
        · exact ⟨false, result, uncancelled⟩
        · exact ⟨true, result, late⟩
      · obtain ⟨result, completed⟩ := onRecord.now.returned_of_mem isEmpty isTask
        have follows : Follows executor.tasks.entries token set moment final.now := by
          rcases List.mem_cons.mp member with rfl | earlier
          · exact .refl _
          · exact onRecord.earlier moment earlier
        rcases follows.late isCancelled _ completed with old | ⟨task, isOther, ends⟩
        · exact absurd (List.mem_map_of_mem (f := Prod.fst) old) notCompleted
        · exact ⟨_, isOther, result, ends⟩

/-- An executor that misses no cancellation reports each. -/
theorem reportsCancellation_of {executor : AnyExecutor T E}
    (covered : ¬ executor.MissesCancellation) : executor.ReportsCancellation := by
  refine ⟨fun token given start events value final run cancelledBefore => ?_,
    fun start events value final live run => ?_⟩
  · rw [AnyExecutor.run_eq, given] at run
    obtain ⟨set, own, left⟩ := runWith_left (.inl trivial) run
    cases left with
    | returned onRecord isEmpty gathers =>
        exact absurd (missesCancellation_of_gathered given own onRecord isEmpty gathers
          cancelledBefore) covered
    | @failed e _ => exact ⟨e, rfl⟩
  · rw [AnyExecutor.run_eq] at run
    obtain ⟨_, token, here, _, rfl, gets, run⟩ := Reaches.of_bind run
    have isLive : here.cancelled token = false := by
      cases isGiven : executor.cancellation with
      | some given =>
          rw [isGiven] at gets
          obtain ⟨-, isToken, rfl⟩ := gets.of_done
          cases isToken
          exact live _ isGiven
      | none =>
          rw [isGiven] at gets
          obtain ⟨ready, -, rfl, rfl⟩ := gets.of_perform
          exact Function.update_self ..
    rw [← calls_world] at run
    obtain ⟨last, recordedRun, rfl⟩ := Service.recorded_of_reaches _ run { now := here } rfl
    obtain ⟨set, -, left⟩ := runWith_left (.inr isLive) recordedRun
    cases left with
    | returned => exact ⟨_, rfl, nofun⟩
    | failed leftBy =>
        refine ⟨_, rfl, ?_⟩
        rintro _ ⟨⟩ rfl
        cases leftBy with
        | signalled _ byCaller => exact byCaller rfl

/-- The tasks that run with a token. -/
abbrev runningWith (token : Nat) (entries : List (String × TaskFn T E)) : List (Spawned T E) :=
  entries.map fun entry => { name := entry.1, task := entry.2, token }

/-- These tasks have completed, each with a result. -/
structure Returned (names : List String) (before after : List (String × TaskEnd T E)) : Prop where
  names : after.map Prod.fst = before.map Prod.fst ++ names
  kept : ∀ entry ∈ after, entry ∈ before ∨ ∃ result, entry.2 = .returned result

/-- Running tasks that may return, with their token as it is, may all complete. -/
theorem may_return (cancels : Nat → Prop) {here : Runtime T E} (set token : Nat)
    (returning : List (String × TaskFn T E)) {staying : List (Spawned T E)}
    (split : (here.joinSet set).running.Perm (runningWith token returning ++ staying))
    (ends : ∀ entry ∈ returning, ∃ result, entry.2 (here.cancelled token) (.returned result)) :
    ∃ ready, ReflTransGen (Advances cancels) here ready ∧ ready.now = here.now ∧
      ready.cancelled = here.cancelled ∧ (ready.joinSet set).running.Perm staying ∧
      (ready.joinSet set).joined = (here.joinSet set).joined ∧
      Returned (returning.map Prod.fst) (here.joinSet set).completed
        (ready.joinSet set).completed := by
  induction returning generalizing here with
  | nil => exact ⟨here, .refl, rfl, rfl, split, rfl, (List.append_nil _).symm, fun _ => .inl⟩
  | cons entry returning ih =>
      obtain ⟨name, task⟩ := entry
      obtain ⟨⟨result, isEnd⟩, laterEnd⟩ := List.forall_mem_cons.mp ends
      obtain ⟨before, after, isRunning⟩ :=
        List.append_of_mem (split.mem_iff.mpr List.mem_cons_self)
      have finishes : Advances cancels here _ := .finish isRunning isEnd
      generalize isNext : here.put set _ = next at finishes
      have inSet : next.joinSet set = { here.joinSet set with
          running := before ++ after
          completed := (here.joinSet set).completed ++ [(name, .returned result)] } := by
        rw [← isNext, Runtime.put_joinSet_self]
      have sameTokens : next.cancelled = here.cancelled := by rw [← isNext, Runtime.put_cancelled]
      have sameTime : next.now = here.now := by
        rw [← isNext]
        rfl
      have others : (next.joinSet set).running.Perm (runningWith token returning ++ staying) := by
        rw [inSet]
        rw [isRunning] at split
        exact (List.perm_middle.symm.trans split).cons_inv
      obtain ⟨ready, rests, readyTime, readyTokens, running, joined, returned⟩ :=
        ih others (by rwa [sameTokens])
      rw [inSet] at joined returned
      refine ⟨ready, .head finishes rests, readyTime.trans sameTime, readyTokens.trans sameTokens,
        running, joined, ?_, fun entry member => ?_⟩
      · rw [returned.names]
        simp
      · rcases returned.kept entry member with old | isResult
        · rcases List.mem_append.mp old with older | isNew
          · exact .inl older
          · rw [List.mem_singleton.mp isNew]
            exact .inr ⟨result, rfl⟩
        · exact .inr isResult

/-- When nothing runs and everything has returned, the results may be gathered. -/
theorem partialLoop_may_gather (cancels : Nat → Prop) {here : Runtime T E} (timeout : Option Nat)
    (token fuel : Nat) (results : PartialResults T E) (idle : (here.joinSet set).running = [])
    (returned : ∀ entry ∈ (here.joinSet set).completed, ∃ result, entry.2 = .returned result)
    (bounded : (here.joinSet set).joined ≤ (here.joinSet set).completed.length)
    (enough : (here.joinSet set).completed.length < fuel + (here.joinSet set).joined) :
    ∃ event events gathered final, Returns (runtime (Advances cancels))
      (partialLoop set token timeout fuel results) here (event :: events) (some (.ok gathered))
      final := by
  induction fuel generalizing here results with
  | zero => omega
  | succ fuel ih =>
      cases isNext : (here.joinSet set).completed[(here.joinSet set).joined]? with
      | none =>
          have polled : (here.joinSet set).joinNext = some (none, here.joinSet set) := by
            simp [JoinSet.joinNext, isNext, idle]
          obtain ⟨event, awaits⟩ := nextOutcome_may_poll cancels timeout token .refl rfl
            polled
          exact ⟨event, _, results, _, awaits.bind _⟩
      | some entry =>
          obtain ⟨result, isResult⟩ := returned entry (List.mem_of_getElem? isNext)
          obtain ⟨name, ended⟩ := entry
          obtain rfl : ended = .returned result := isResult
          obtain ⟨event, awaits⟩ := nextOutcome_may_poll cancels timeout token .refl rfl
            (JoinSet.joinNext_of_next isNext)
          generalize isAfter : here.put set _ = next at awaits
          have inSet : next.joinSet set = { here.joinSet set with
              joined := (here.joinSet set).joined + 1 } := by
            rw [← isAfter, Runtime.put_joinSet_self]
          have nextIdle : (next.joinSet set).running = [] := by rw [inSet, idle]
          have nextReturned : ∀ entry ∈ (next.joinSet set).completed,
              ∃ result, entry.2 = .returned result := by
            rw [inSet]
            exact returned
          have nextBounded : (next.joinSet set).joined ≤ (next.joinSet set).completed.length := by
            rw [inSet]
            exact (List.getElem?_eq_some_iff.mp isNext).1
          have nextEnough : (next.joinSet set).completed.length <
              fuel + (next.joinSet set).joined := by
            rw [inSet]
            dsimp only
            omega
          obtain ⟨_, _, gathered, final, loops⟩ := ih (results.insert name result) nextIdle
            nextReturned nextBounded nextEnough
          exact ⟨event, _, gathered, final, (awaits.bind _).trans loops⟩

/-- A call does not tell when it was made, except by the clock. -/
theorem RuntimeOp.Effect.of_now {start other ready next : Runtime T E} {op : RuntimeOp T E}
    {response : (runtimeSignature T E).Response op} (effect : op.Effect start ready response next)
    (sameTime : start.now = other.now) : op.Effect other ready response next := by
  cases op with
  | joinNextTimeout set duration =>
      cases response <;> simpa only [RuntimeOp.Effect, sameTime] using effect
  | _ => exact effect

/-- What happens before the first call of a program may happen during it. -/
theorem returns_of_rests {α : Type} {program : RuntimeProgram T E α} {value : α}
    {here ready final : Recorded (Runtime T E)} {event : Event (runtimeSignature T E)}
    {events : List (Event (runtimeSignature T E))}
    (rests : ReflTransGen (calls cancels).Records here ready)
    (sameTime : ready.now.now = here.now.now)
    (run : Returns (calls cancels).recorded program ready (event :: events) value final) :
    Returns (calls cancels).recorded program here (event :: events) value final := by
  cases run with
  | step answer rest =>
      obtain ⟨later, state, laterRests, effect, rfl⟩ := answer
      exact .step ⟨later, state, rests.trans laterRests, effect.of_now sameTime, rfl⟩ rest

/-- A batch of which one task had not completed when the token was cancelled, and which
has returned since. -/
structure ReturnsLate (map : TaskMap T E) (token set : Nat) (name : String)
    (started moment ready : Runtime T E) : Prop where
  before : ReflTransGen (Advances fun _ => True) started moment
  after : ReflTransGen (Advances fun _ => True) moment ready
  sameTime : ready.now = started.now
  cancelled : moment.cancelled token = true
  pending : name ∉ (moment.joinSet set).completed.map Prod.fst
  idle : (ready.joinSet set).running = []
  noneJoined : (ready.joinSet set).joined = 0
  count : (ready.joinSet set).completed.length = map.entries.length
  returned : ∀ entry ∈ (ready.joinSet set).completed, ∃ result, entry.2 = .returned result

/-- Where every task may return in some way, and one of them once its token is cancelled,
that one may be among those that return late. -/
theorem exists_late {map : TaskMap T E} {name : String} {task : TaskFn T E} {result : Except E T}
    (returns : ∀ entry ∈ map.entries, ∃ isCancelled result, entry.2 isCancelled (.returned result))
    (isTask : (name, task) ∈ map.entries) (ends : task true (.returned result)) :
    ∃ early late, map.entries.Perm (early ++ late) ∧ name ∉ early.map Prod.fst ∧
      (∀ entry ∈ early, ∃ result, entry.2 false (.returned result)) ∧
      ∀ entry ∈ late, ∃ result, entry.2 true (.returned result) := by
  classical
  let isEarly : String × TaskFn T E → Bool :=
    fun entry => entry.1 ≠ name ∧ ∃ result, entry.2 false (.returned result)
  refine ⟨map.entries.filter isEarly, map.entries.filter (!isEarly ·),
    (List.filter_append_perm isEarly map.entries).symm, fun member => ?_, fun entry member => ?_,
    fun entry member => ?_⟩
  · obtain ⟨entry, isEntry, sameName⟩ := List.mem_map.mp member
    exact (of_decide_eq_true (List.mem_filter.mp isEntry).2).1 sameName
  · exact (of_decide_eq_true (List.mem_filter.mp member).2).2
  · obtain ⟨isEntry, notEarly⟩ := List.mem_filter.mp member
    by_cases same : entry.1 = name
    · rw [List.inj_on_of_nodup_map map.distinct isEntry isTask same]
      exact ⟨result, ends⟩
    · obtain ⟨isCancelled, result, isEnd⟩ := returns entry isEntry
      cases isCancelled with
      | true => exact ⟨result, isEnd⟩
      | false =>
          have early : isEarly entry = true := decide_eq_true ⟨same, result, isEnd⟩
          rw [early] at notEarly
          cases notEarly

/-- The tasks that return early may complete, then the token be cancelled, and then the
rest complete. -/
theorem may_return_late {map : TaskMap T E} {started : Runtime T E} {name : String}
    {task : TaskFn T E} {result : Except E T} (live : started.cancelled token = false)
    (inSet : started.joinSet set = { running := runningWith token map.entries })
    (returns : ∀ entry ∈ map.entries, ∃ isCancelled result, entry.2 isCancelled (.returned result))
    (isTask : (name, task) ∈ map.entries) (ends : task true (.returned result)) :
    ∃ moment ready, ReturnsLate map token set name started moment ready := by
  obtain ⟨early, late, split, notEarly, earlyEnd, lateEnd⟩ := exists_late returns isTask ends
  have running : (started.joinSet set).running.Perm
      (runningWith token early ++ runningWith token late) := by
    rw [inSet, ← List.map_append]
    exact split.map _
  obtain ⟨before, rests, time, -, stillRunning, joined, returned⟩ :=
    may_return (fun _ => True) set token early running (by rwa [live])
  have isCancelled : (before.cancel token).cancelled token = true := Function.update_self ..
  have lateRunning : ((before.cancel token).joinSet set).running.Perm
      (runningWith token late ++ []) := by
    rw [List.append_nil]
    exact stillRunning
  obtain ⟨ready, lateRests, readyTime, -, idle, readyJoined, lateReturned⟩ :=
    may_return (fun _ => True) set token late lateRunning (by rwa [isCancelled])
  rw [inSet] at joined returned
  have momentNames : ((before.cancel token).joinSet set).completed.map Prod.fst =
      early.map Prod.fst := returned.names
  refine ⟨before.cancel token, ready, {
    before := rests.tail (.cancel trivial)
    after := lateRests
    sameTime := readyTime.trans time
    cancelled := isCancelled
    pending := by rwa [momentNames]
    idle := idle.eq_nil
    noneJoined := readyJoined.trans joined
    count := ?_
    returned := fun entry member => ?_ }⟩
  · have names := congrArg List.length lateReturned.names
    rw [momentNames, ← List.map_append, List.length_map, List.length_map] at names
    rw [names, split.length_eq]
  · rcases lateReturned.kept entry member with old | isResult
    · exact (returned.kept entry old).resolve_left nofun
    · exact isResult

/-- An executor for partial results may return them although the token was cancelled. -/
theorem not_reportsCancellation {executor : PartialExecutor T E}
    (given : executor.cancellation = some token) {name : String} {task : TaskFn T E}
    {result : Except E T}
    (returns : ∀ entry ∈ executor.tasks.entries,
      ∃ isCancelled result, entry.2 isCancelled (.returned result))
    (isTask : (name, task) ∈ executor.tasks.entries) (ends : task true (.returned result)) :
    ¬ (AnyExecutor.withPartialResults executor).ReportsCancellation := by
  rintro ⟨reports, -⟩
  obtain ⟨spawnEvents, started, spawns, sameTokens, inSet, spawned⟩ :=
    spawnTasks_reaches (fun _ => True) executor.tasks token {}
  obtain ⟨moment, ready, late⟩ := may_return_late (by rw [sameTokens]) inSet returns isTask ends
  obtain ⟨event, events, gathered, _, gathers⟩ := partialLoop_may_gather (fun _ => True)
    executor.timeout token (executor.tasks.entries.length + 1) ∅ late.idle late.returned
    (by rw [late.noneJoined]; exact Nat.zero_le _) (by rw [late.count]; omega)
  -- The same on the record, where the completions and the cancellation fall into the first join.
  obtain ⟨recordedStart, spawnsOnRecord, rfl⟩ := (calls fun _ => True).recorded_of_reaches
    spawns { now := {} } rfl
  obtain ⟨recordedMoment, before, rfl⟩ := (calls fun _ => True).records_of_environment
    late.before
  obtain ⟨recordedReady, after, rfl⟩ := (calls fun _ => True).records_of_environment
    late.after
  obtain ⟨final, gathersOnRecord, -⟩ := (calls fun _ => True).recorded_of_reaches
    gathers recordedReady rfl
  have loops := returns_of_rests (before.trans after) late.sameTime gathersOnRecord
  have run : Returns (calls fun _ => True).recorded
      (AnyExecutor.withPartialResults executor).run { now := {} }
      (spawnEvents ++ event :: events) (some (.ok gathered)) final := by
    rw [AnyExecutor.run_eq]
    change Returns _ (tokenOrDefault executor.cancellation >>= _) _ _ _ _
    rw [given]
    exact (spawnsOnRecord.bind _).trans loops
  have passed : recordedMoment.now ∈ final.moments := Service.moments_of_reaches gathersOnRecord
    (Service.moments_of_records after List.mem_cons_self)
  obtain ⟨e, isError⟩ := reports token given _ _ _ _ run ⟨_, passed, late.cancelled, _, _,
    List.mem_append_left _ (spawned _ isTask), rfl, late.pending⟩
  cases isError

/-- An executor reports the cancellation of the caller's token exactly if it is the
fail-fast one, or has no token of the caller's, or cannot gather all results once the
token is cancelled. -/
theorem reportsCancellation_iff (executor : AnyExecutor T E) :
    executor.ReportsCancellation ↔ ¬ executor.MissesCancellation := by
  refine ⟨fun reports misses => ?_, reportsCancellation_of⟩
  cases executor with
  | failFast executor => exact misses
  | withPartialResults executor =>
      obtain ⟨isSome, returns, ⟨name, task⟩, isTask, result, ends⟩ := misses
      obtain ⟨token, given⟩ := Option.isSome_iff_exists.mp isSome
      exact not_reportsCancellation given returns isTask ends reports

/-- One task that does not look at its token. -/
def ignoresToken : TaskMap Nat String :=
  TaskMap.new.insert "stubborn" fun _ ended => ended = .returned (.ok 1)

/-- Its result is returned although the token was cancelled before. -/
theorem ignoresToken_missed : ¬ (AnyExecutor.withPartialResults
    ((executeConcurrently ignoresToken).withPartialResults.withCancellation
      0)).ReportsCancellation := by
  have isTask : ("stubborn", fun _ ended => ended = .returned (.ok 1)) ∈ ignoresToken.entries :=
    (OrderedMap.mem_insert ..).mpr (.inl rfl)
  refine not_reportsCancellation rfl (fun entry member => ?_) isTask rfl
  rcases (OrderedMap.mem_insert ..).mp member with rfl | ⟨-, none⟩
  · exact ⟨false, _, rfl⟩
  · cases none

end AltairRs.Concurrent
