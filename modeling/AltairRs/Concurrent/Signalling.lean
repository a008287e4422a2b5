import AltairRs.Concurrent.Exits

/-!
# Failing exits and the token

An executor that is left with an error signals the tasks that have not completed,
through the token they hold. The error of a join leaves through the `?` at the call of
`nextOutcome`, which signals nobody; the module settles for which batches that shows.
-/

namespace AltairRs.Concurrent

open Effect Keyed

variable {T E : Type} {executor : AnyExecutor T E}

/-- In every run: when the executor has returned an error, every task that has not
completed holds a cancelled token. -/
def AnyExecutor.SignalsSiblings (executor : AnyExecutor T E) : Prop :=
  ∀ start events value final,
    Returns (runtime (Advances fun _ => True)) executor.run start events value final →
      ∃ result, value = some result ∧ ∀ e, result = .error e →
        ∀ token, PendingWith events token final → final.cancelled token = true

/-- Finding the token spawns nothing. -/
theorem tokenOrDefault_asks (tasks : List (String × TaskFn T E)) (token set : Nat)
    (cancellation : Option Nat) :
    (tokenOrDefault cancellation).Asks (SpawnsOnly tasks token set) := by
  cases cancellation with
  | none => exact ⟨nofun, fun _ => trivial⟩
  | some given => trivial

/-- A pending task of a run is one of the batch's own. -/
theorem PendingWith.own {tasks : List (String × TaskFn T E)} {token set other : Nat}
    {events : List (Event (runtimeSignature T E))} {moment : Runtime T E}
    (pending : PendingWith events other moment)
    (own : ∀ event ∈ events, SpawnsOnly tasks token set event.operation) :
    other = token ∧ ∃ name ∈ tasks.map Prod.fst,
      name ∉ (moment.joinSet set).completed.map Prod.fst := by
  obtain ⟨_, spawned, member, rfl, notCompleted⟩ := pending
  obtain ⟨rfl, isToken, isTask⟩ := own _ member _ _ rfl
  exact ⟨isToken, spawned.name, isTask, notCompleted⟩

/-- Every exit signals, unless a join fails on a task that ended while its token was
not cancelled, and there are others. -/
theorem signalsSiblings_of (covered : executor.tasks.entries.length ≤ 1 ∨
      ∀ entry ∈ executor.tasks.entries, ∀ error, ¬ entry.2 false (.aborted error)) :
    executor.SignalsSiblings := by
  intro start events value final run
  rw [AnyExecutor.run_eq] at run
  obtain ⟨before, token, here, after, rfl, gets, run⟩ := Reaches.of_bind run
  rw [← calls_world] at run
  obtain ⟨last, recordedRun, rfl⟩ := Service.recorded_of_reaches _ run { now := here } rfl
  obtain ⟨set, spawned, left⟩ := runWith_left (.inl trivial) recordedRun
  have own : ∀ event ∈ before ++ after,
      SpawnsOnly executor.tasks.entries token set event.operation :=
    List.forall_mem_append.mpr ⟨(tokenOrDefault_asks _ token set _).events gets, spawned⟩
  cases left with
  | returned => exact ⟨_, rfl, nofun⟩
  | failed leftBy =>
      refine ⟨_, rfl, fun e _ other pending => ?_⟩
      obtain ⟨rfl, name, isName, notCompleted⟩ := pending.own own
      cases leftBy with
      | signalled isCancelled => exact isCancelled
      | @joinFailed failedName task source _ isTask ends completed =>
          rcases covered with alone | noneAborts
          · have same : name = failedName := by
              obtain ⟨entry, isEntry, rfl⟩ := List.mem_map.mp isName
              obtain ⟨i, isIndex, rfl⟩ := List.mem_iff_getElem.mp isEntry
              obtain ⟨j, isOther, isFailed⟩ := List.mem_iff_getElem.mp isTask
              obtain rfl : i = j := by omega
              exact congrArg Prod.fst isFailed
            rw [same] at notCompleted
            exact absurd completed notCompleted
          · exact absurd ends (noneAborts _ isTask source)

/-- Given or new, the token of a batch may be live. -/
theorem tokenOrDefault_reaches (T E : Type) (cancels : Nat → Prop) (cancellation : Option Nat) :
    ∃ events token here, Reaches (runtime (Advances cancels)) (tokenOrDefault cancellation)
      ({} : Runtime T E) events (.done token) here ∧ here.cancelled token = false := by
  cases cancellation with
  | some token => exact ⟨_, token, {}, .refl, rfl⟩
  | none =>
      let made : Runtime T E :=
        { tokens := 1, cancelled := Function.update (fun _ => false) 0 false }
      have answer : (runtime (Advances cancels)).Answers ({} : Runtime T E) .newToken (0 : Nat)
          made := ⟨{}, .refl, rfl, rfl⟩
      exact ⟨_, 0, made, .step answer .refl, rfl⟩

/-- Where there are several tasks, there is one under another name. -/
theorem exists_sibling {map : TaskMap T E} (several : 1 < map.entries.length) (name : String) :
    ∃ entry ∈ map.entries, entry.1 ≠ name := by
  by_contra none
  push Not at none
  have same : map.entries.map Prod.fst = List.replicate map.entries.length name := by
    refine List.eq_replicate_iff.mpr ⟨List.length_map _, fun key member => ?_⟩
    obtain ⟨entry, isEntry, rfl⟩ := List.mem_map.mp member
    exact none entry isEntry
  have distinct := map.distinct
  rw [same, List.nodup_replicate] at distinct
  omega

/-- An error of the first outcome is the error of the batch. -/
theorem AnyExecutor.runWith_fails {world : World (runtimeSignature T E) (Runtime T E)}
    {token set : Nat} {start started last : Runtime T E}
    {events later : List (Event (runtimeSignature T E))} {e : Error E}
    (spawns : Returns world (spawnTasks executor.tasks token) start events set started)
    (awaits : Returns world (nextOutcome set token executor.timeout) started later (.error e)
      last) :
    Returns world (executor.runWith token) start (events ++ later) (some (.error e)) last := by
  cases executor with
  | failFast executor => exact (spawns.bind _).trans (awaits.bind _)
  | withPartialResults executor => exact (spawns.bind _).trans (awaits.bind _)

/-- A task that may be aborted while its token is live may leave its siblings without
a signal. -/
theorem not_signalsSiblings (several : 1 < executor.tasks.entries.length) {name : String}
    {task : TaskFn T E} {error : JoinError} (isTask : (name, task) ∈ executor.tasks.entries)
    (aborts : task false (.aborted error)) : ¬ executor.SignalsSiblings := by
  intro signals
  let anyone : Nat → Prop := fun _ => True
  obtain ⟨_, token, here, gets, live⟩ :=
    tokenOrDefault_reaches T E anyone executor.cancellation
  obtain ⟨_, started, spawns, sameTokens, inSet, spawned⟩ :=
    spawnTasks_reaches anyone executor.tasks token here
  have runs : ({ name, task, token } : Spawned T E) ∈ (started.joinSet here.sets).running := by
    rw [inSet]
    exact List.mem_map_of_mem isTask
  have ends : task (started.cancelled token) (.aborted error) := by
    rw [sameTokens, live]
    exact aborts
  obtain ⟨_, last, awaits, stillTokens, completed⟩ := nextOutcome_may_join anyone
    executor.timeout token runs (by rw [inSet]) (by rw [inSet]) ends
  have run := gets.bind executor.runWith |>.trans (executor.runWith_fails spawns awaits)
  rw [← AnyExecutor.run_eq] at run
  obtain ⟨_, isResult, signalled⟩ := signals _ _ _ _ run
  cases isResult
  obtain ⟨sibling, isSibling, isOther⟩ := exists_sibling several name
  have isCancelled : last.cancelled token = true := by
    refine signalled _ rfl token ⟨_, _, List.mem_append_right _ (List.mem_append_left _
      (spawned sibling isSibling)), rfl, ?_⟩
    rw [completed]
    simpa using isOther
  rw [stillTokens, sameTokens, live] at isCancelled
  cases isCancelled

/-- Every failing exit signals the siblings exactly if there are none, or no task can be
aborted while its token is not cancelled. -/
theorem signalsSiblings_iff (executor : AnyExecutor T E) :
    executor.SignalsSiblings ↔ executor.tasks.entries.length ≤ 1 ∨
      ∀ entry ∈ executor.tasks.entries, ∀ error, ¬ entry.2 false (.aborted error) := by
  refine ⟨fun signals => ?_, signalsSiblings_of⟩
  by_contra uncovered
  obtain ⟨several, mayAbort⟩ := not_or.mp uncovered
  push Not at mayAbort
  obtain ⟨⟨name, task⟩, isTask, error, aborts⟩ := mayAbort
  exact not_signalsSiblings (Nat.lt_of_not_le several) isTask aborts signals

/-- A task that panics at once, and one that runs until it is cancelled. -/
def panicAndWait : TaskMap Nat String :=
  (TaskMap.new.insert "boom" fun _ ended => ended = .aborted .panic).insert "wait"
    fun isCancelled ended => isCancelled = true ∧ ended = .returned (.error "cancelled")

/-- The one that waits is not told. -/
theorem panic_unsignalled :
    ¬ (AnyExecutor.failFast (executeConcurrently panicAndWait)).SignalsSiblings := by
  have isTask : ("boom", fun _ ended => ended = .aborted .panic) ∈ panicAndWait.entries :=
    (OrderedMap.mem_insert ..).mpr
      (.inr ⟨by decide, (OrderedMap.mem_insert ..).mpr (.inl rfl)⟩)
  have several : 1 < panicAndWait.entries.length := by decide
  exact not_signalsSiblings several isTask rfl

end AltairRs.Concurrent
