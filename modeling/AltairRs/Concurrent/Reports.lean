import AltairRs.Concurrent.Outcomes
import AltairRs.Concurrent.Signalling

/-!
# What an executor reports is so

In whatever order tasks complete, panic, time out and see the caller cancel: results
are those of the tasks, under exactly their names, and every error has its reason. A
cancellation is reported only when it came too late to make any task fail.
-/

namespace AltairRs.Concurrent

open Effect Keyed Relation

variable {T E α : Type} {cancels : Nat → Prop} {tasks : List (String × TaskFn T E)}
  {token set : Nat} {here ready next final : Recorded (Runtime T E)}
  {events : List (Event (runtimeSignature T E))} {wrap : α → Except E T}

/-- The end of a task of the batch, which sees no cancellation but the caller's. -/
def MayEnd (tasks : List (String × TaskFn T E)) (byCaller : Prop) (name : String)
    (ended : TaskEnd T E) : Prop :=
  ∃ task, (name, task) ∈ tasks ∧ (task false ended ∨ byCaller ∧ task true ended)

/-- Results under the names of the tasks, each the one that its task returned. -/
structure Gathered (wrap : α → Except E T) (tasks : List (String × TaskFn T E)) (byCaller : Prop)
    (results : AList fun _ : String => α) : Prop where
  names : ∀ name, name ∈ results ↔ name ∈ tasks.map Prod.fst
  returned : ∀ name value, results.lookup name = some value →
    MayEnd tasks byCaller name (.returned (wrap value))

/-- Why either loop is left with an error: joining a task failed, or a task was still
awaited when the timeout had elapsed, in the time the executor took. -/
inductive Fault (tasks : List (String × TaskFn T E)) (timeout : Option Nat) (byCaller : Prop)
    (took : Nat) : Error E → Prop where
  | join {name source} (ends : MayEnd tasks byCaller name (.aborted source)) :
      Fault tasks timeout byCaller took (.join source)
  | timeout {duration} (isTimeout : timeout = some duration) (elapsed : duration ≤ took)
      (awaited : tasks ≠ []) : Fault tasks timeout byCaller took .timeout

/-- What the fail-fast loop may report. -/
inductive FailFastReport (tasks : List (String × TaskFn T E)) (timeout : Option Nat)
    (byCaller : Prop) (took : Nat) : Result E (AList fun _ : String => T) → Prop where
  | gathered {results} (all : Gathered Except.ok tasks byCaller results) :
      FailFastReport tasks timeout byCaller took (.ok results)
  | taskFailed {name e} (ends : MayEnd tasks byCaller name (.returned (.error e))) :
      FailFastReport tasks timeout byCaller took (.error (.taskFailed name e))
  | cancelled {results} (isCancelled : byCaller) (all : Gathered Except.ok tasks byCaller results) :
      FailFastReport tasks timeout byCaller took (.error .cancelled)
  | fault {e} (fault : Fault tasks timeout byCaller took e) :
      FailFastReport tasks timeout byCaller took (.error e)

/-- What the loop for partial results may report. -/
inductive PartialReport (tasks : List (String × TaskFn T E)) (timeout : Option Nat)
    (byCaller : Prop) (took : Nat) : Result E (PartialResults T E) → Prop where
  | gathered {results} (all : Gathered id tasks byCaller results) :
      PartialReport tasks timeout byCaller took (.ok results)
  | fault {e} (fault : Fault tasks timeout byCaller took e) :
      PartialReport tasks timeout byCaller took (.error e)

/-- What has been joined, and the results that were gathered from it. -/
structure Gathering (cancels : Nat → Prop) (wrap : α → Except E T)
    (tasks : List (String × TaskFn T E)) (token set : Nat) (here : Recorded (Runtime T E))
    (consumed : List (String × TaskEnd T E)) (results : AList fun _ : String => α) : Prop where
  onRecord : OnRecord cancels tasks token set here
  joined : (here.now.joinSet set).completed.take (here.now.joinSet set).joined = consumed
  wrapped : ∀ entry ∈ consumed, ∃ value, entry.2 = .returned (wrap value)
  collects : Collects wrap consumed results

/-- A completed task ended as it may. -/
theorem Cancellable.mayEnd {here : Runtime T E}
    (cancellable : Cancellable cancels tasks token set here) {entry : String × TaskEnd T E}
    (member : entry ∈ (here.joinSet set).completed) :
    MayEnd tasks (cancels token) entry.1 entry.2 := by
  obtain ⟨task, isTask, ends⟩ := cancellable.completed entry member
  refine ⟨task, isTask, ends.imp_right fun late => ⟨?_, late.1⟩⟩
  exact cancellable.live.resolve_right (by rw [late.2]; nofun)

/-- The environment leaves the front that was joined. -/
theorem consumed_of_rests (onRecord : OnRecord cancels tasks token set here)
    (rests : ReflTransGen (calls cancels).Records here ready) :
    (ready.now.joinSet set).completed.take (ready.now.joinSet set).joined =
      (here.now.joinSet set).completed.take (here.now.joinSet set).joined := by
  induction rests with
  | refl => rfl
  | tail earlier step ih =>
      have bounded := (onRecord.rests earlier).now.joined
      obtain ⟨advances⟩ := step
      refine Eq.trans ?_ ih
      rcases advances.joinSet set with same | ⟨-, _, _, _, _, -, -, isNext⟩
      · rw [Recorded.pass, same]
      · rw [Recorded.pass, isNext]
        exact List.take_append_of_le_length bounded

namespace Gathering

variable {consumed : List (String × TaskEnd T E)} {results : AList fun _ : String => α}

/-- What is gathered stays while the program rests. -/
theorem rests (gathering : Gathering cancels wrap tasks token set here consumed results)
    (rests : ReflTransGen (calls cancels).Records here ready) :
    Gathering cancels wrap tasks token set ready consumed results :=
  ⟨gathering.onRecord.rests rests,
    (consumed_of_rests gathering.onRecord rests).trans gathering.joined, gathering.wrapped,
    gathering.collects⟩

/-- One more result. -/
theorem join (gathering : Gathering cancels wrap tasks token set here consumed results)
    (distinct : (tasks.map Prod.fst).Nodup) (injective : Function.Injective wrap) {name : String}
    {value : α} (isNext : (here.now.joinSet set).completed[(here.now.joinSet set).joined]? =
      some (name, .returned (wrap value))) :
    Gathering cancels wrap tasks token set
      (here.pass (here.now.put set { here.now.joinSet set with
        joined := (here.now.joinSet set).joined + 1 }))
      (consumed ++ [(name, .returned (wrap value))]) (results.insert name value) := by
  have front : (here.now.joinSet set).completed.take ((here.now.joinSet set).joined + 1) =
      consumed ++ [(name, .returned (wrap value))] := by
    rw [List.take_add_one, isNext, gathering.joined]
    rfl
  have fresh : ∀ entry ∈ consumed, entry.1 ≠ name := by
    have names : ((here.now.joinSet set).completed.map Prod.fst).Nodup :=
      (gathering.onRecord.now.names.nodup_iff.mpr distinct).of_append_left
    have frontNames :
        ((consumed ++ [(name, TaskEnd.returned (wrap value))]).map Prod.fst).Nodup := by
      rw [← front]
      exact names.sublist ((List.take_sublist _ _).map Prod.fst)
    rw [List.map_append, List.nodup_append] at frontNames
    intro entry member
    exact frontNames.2.2 _ (List.mem_map_of_mem member) _ List.mem_cons_self
  refine ⟨gathering.onRecord.pass (gathering.onRecord.now.join isNext)
      (.of_same rfl (by rw [Runtime.put_joinSet_self])), ?_, ?_, ?_⟩
  · rw [Recorded.pass, Runtime.put_joinSet_self]
    exact front
  · refine List.forall_mem_append.mpr ⟨gathering.wrapped, ?_⟩
    exact List.forall_mem_singleton.mpr ⟨value, rfl⟩
  · exact gathering.collects.insert injective fresh value

/-- A call that only asks. -/
theorem pass (gathering : Gathering cancels wrap tasks token set here consumed results) :
    Gathering cancels wrap tasks token set (here.pass here.now) consumed results :=
  ⟨gathering.onRecord.pass gathering.onRecord.now (.refl _), gathering.joined, gathering.wrapped,
    gathering.collects⟩

/-- No more is gathered than was spawned. -/
theorem consumed_le (gathering : Gathering cancels wrap tasks token set here consumed results) :
    consumed.length ≤ tasks.length := by
  rw [← gathering.joined, List.length_take]
  exact (Nat.min_le_left _ _).trans gathering.onRecord.now.joined_le

/-- When the tasks have been spawned, nothing has been gathered. -/
theorem of_spawned {map : TaskMap T E} {start : Runtime T E}
    (live : cancels token ∨ start.cancelled token = false)
    (run : Returns (calls cancels).recorded (spawnTasks map token) { now := start } events set
      final) : Gathering cancels wrap map.entries token set final [] ∅ := by
  obtain ⟨onRecord, joined⟩ := spawnTasks_returns live run
  refine ⟨onRecord, ?_, nofun, fun name value => ?_⟩
  · rw [joined]
    exact List.take_zero
  · rw [AList.lookup_empty]
    exact ⟨nofun, nofun⟩

/-- When everything has been joined, everything has been gathered. -/
theorem gathered (gathering : Gathering cancels wrap tasks token set here consumed results)
    (isEmpty : (here.now.joinSet set).isEmpty = true) :
    Gathered wrap tasks (cancels token) results := by
  have whole : (here.now.joinSet set).completed = consumed := by
    rw [← gathering.joined, List.take_of_length_le (JoinSet.isEmpty_iff.mp isEmpty).2]
  have names := gathering.onRecord.now.all_completed isEmpty
  rw [whole] at names
  constructor
  · intro name
    rw [← names.mem_iff, ← AList.lookup_isSome, Option.isSome_iff_exists, List.mem_map]
    constructor
    · rintro ⟨value, isFound⟩
      exact ⟨_, (gathering.collects name value).mp isFound, rfl⟩
    · rintro ⟨⟨_, ended⟩, member, rfl⟩
      obtain ⟨value, rfl⟩ := gathering.wrapped _ member
      exact ⟨value, (gathering.collects _ value).mpr member⟩
  · intro name value isFound
    have member := (gathering.collects name value).mp isFound
    rw [← whole] at member
    exact gathering.onRecord.now.mayEnd member

end Gathering

/-- While the environment goes on, time only passes. -/
theorem now_le_of_rests
    (rests : ReflTransGen (calls (T := T) (E := E) cancels).Records here ready) :
    here.now.now ≤ ready.now.now := by
  induction rests with
  | refl => exact le_rfl
  | tail _ step ih =>
      obtain ⟨advances⟩ := step
      refine ih.trans ?_
      cases advances with
      | tick => exact Nat.le_succ _
      | finish | cancel => exact le_rfl

/-- No call changes the time. -/
theorem RuntimeOp.Effect.now_eq {start ready next : Runtime T E} {op : RuntimeOp T E}
    {response : (runtimeSignature T E).Response op}
    (effect : op.Effect start ready response next) : next.now = ready.now := by
  cases op with
  | newToken | newSet =>
      obtain ⟨-, rfl⟩ := effect
      rfl
  | spawn | cancel | shutdown =>
      obtain rfl : next = _ := effect
      rfl
  | joinNext =>
      obtain ⟨after, -, rfl⟩ := effect
      rfl
  | joinNextTimeout =>
      cases response with
      | none => rw [effect.2.2]
      | some raw =>
          obtain ⟨-, after, -, rfl⟩ := effect
          rfl
  | isCancelled | isEmpty => rw [effect.2]

/-- So it does during a run. -/
theorem now_le_of_reaches {program remainder : RuntimeProgram T E α}
    (run : Reaches (calls cancels).recorded program here events remainder final) :
    here.now.now ≤ final.now.now := by
  induction run with
  | refl => exact le_rfl
  | step answer _ ih =>
      obtain ⟨ready, state, rests, effect, rfl⟩ := answer
      exact (now_le_of_rests rests).trans ((RuntimeOp.Effect.now_eq effect).ge.trans ih)

/-- A poll that fails has joined a task without a result. -/
theorem OnRecord.fault (onRecord : OnRecord cancels tasks token set here) {e : Error E}
    {raw : Option (Except JoinError (TaskOutcome T E))} {after : JoinSet T E}
    (polled : (here.now.joinSet set).joinNext = some (raw, after))
    (isError : outcomeOf raw = .error e) (timeout : Option Nat) (took : Nat) :
    Fault tasks timeout (cancels token) took e := by
  unfold JoinSet.joinNext at polled
  split at polled
  · next entry isNext =>
      obtain ⟨rfl, -⟩ := Prod.mk.inj (Option.some.inj polled)
      obtain ⟨name, result | source⟩ := entry
      · cases isError
      · cases isError
        exact .join (onRecord.now.mayEnd (List.mem_of_getElem? isNext))
  · split_ifs at polled
    obtain ⟨rfl, -⟩ := Prod.mk.inj (Option.some.inj polled)
    cases isError

/-- Only a task that is awaited lets a join time out. -/
theorem OnRecord.awaited_of_pending (onRecord : OnRecord cancels tasks token set here)
    (pending : (here.now.joinSet set).joinNext = none) : tasks ≠ [] := by
  rintro rfl
  have names := onRecord.now.names
  rw [List.map_nil, List.perm_nil, List.append_eq_nil_iff, List.map_eq_nil_iff,
    List.map_eq_nil_iff] at names
  simp [JoinSet.joinNext, names.1, names.2] at pending

/-- An outcome that is an error is a fault of the batch. -/
theorem nextOutcome_fault {timeout : Option Nat} {e : Error E} {began : Nat}
    (onRecord : OnRecord cancels tasks token set here) (since : began ≤ here.now.now)
    (run : Returns (calls cancels).recorded (nextOutcome set token timeout) here events (.error e)
      next) : Fault tasks timeout (cancels token) (next.now.now - began) e := by
  cases timeout with
  | none =>
      obtain ⟨_, raw, _, _, -, joins, rest⟩ := Reaches.of_bind run
      obtain ⟨-, isOutcome, -⟩ := rest.of_done
      obtain ⟨ready, _, rests, ⟨after, polled, -⟩, -⟩ := joins.of_perform
      exact (onRecord.rests rests).fault polled (Program.done.inj isOutcome).symm _ _
  | some duration =>
      obtain ⟨_, response, _, _, -, joins, rest⟩ := Reaches.of_bind run
      obtain ⟨ready, state, rests, effect, rfl⟩ := joins.of_perform
      cases response with
      | some raw =>
          obtain ⟨-, isOutcome, -⟩ := rest.of_done
          obtain ⟨_, after, polled, -⟩ := effect
          exact (onRecord.rests rests).fault polled (Program.done.inj isOutcome).symm _ _
      | none =>
          obtain ⟨isDeadline, pending, rfl⟩ := effect
          have later : (ready.pass ready.now).now.now ≤ next.now.now := now_le_of_reaches rest
          change ready.now.now ≤ next.now.now at later
          obtain ⟨isValue, -⟩ := stop_returns rest
          cases isValue
          exact .timeout rfl (by omega) ((onRecord.rests rests).awaited_of_pending pending)

variable {consumed : List (String × TaskEnd T E)}

/-- The check between two outcomes gathers nothing, and stops only a batch that was
cancelled and has been joined. -/
theorem cancelledAndEmpty_gathering {results : AList fun _ : String => α} {stops : Bool}
    (gathering : Gathering cancels wrap tasks token set here consumed results)
    (run : Returns (calls cancels).recorded (cancelledAndEmpty set token) here events stops next) :
    Gathering cancels wrap tasks token set next consumed results ∧
      (stops = true → cancels token ∧ (next.now.joinSet set).isEmpty = true) := by
  obtain ⟨_, isCancelled, _, _, -, asks, rest⟩ := Reaches.of_bind run
  obtain ⟨ready, _, rests, ⟨rfl, rfl⟩, rfl⟩ := asks.of_perform
  have atReady := (gathering.rests rests).pass
  cases found : ready.now.cancelled token with
  | false =>
      rw [found] at rest
      obtain ⟨-, isValue, rfl⟩ := rest.of_done
      cases isValue
      exact ⟨atReady, fun stopped => absurd stopped Bool.false_ne_true⟩
  | true =>
      rw [found] at rest
      obtain ⟨later, _, restsAgain, ⟨rfl, rfl⟩, rfl⟩ := rest.of_perform
      have byCaller : cancels token :=
        atReady.onRecord.now.live.resolve_right (by rw [Recorded.pass, found]; decide)
      exact ⟨(atReady.rests restsAgain).pass, fun isEmpty => ⟨byCaller, isEmpty⟩⟩

/-- From any front gathered without an error, the fail-fast loop reports what is so. -/
theorem failFastLoop_reports {timeout : Option Nat} {fuel began : Nat}
    {results : AList fun _ : String => T} {value : Option (Result E (AList fun _ : String => T))}
    (distinct : (tasks.map Prod.fst).Nodup)
    (gathering : Gathering cancels Except.ok tasks token set here consumed results)
    (enough : tasks.length < fuel + consumed.length) (since : began ≤ here.now.now)
    (run : Returns (calls cancels).recorded (failFastLoop set token timeout fuel results) here
      events value final) :
    ∃ result, value = some result ∧
      FailFastReport tasks timeout (cancels token) (final.now.now - began) result := by
  induction fuel generalizing here events consumed results with
  | zero =>
      have bounded := gathering.consumed_le
      omega
  | succ fuel ih =>
      obtain ⟨_, outcome, _, _, -, awaits, rest⟩ := Reaches.of_bind run
      cases outcome with
      | error e =>
          obtain ⟨-, isValue, rfl⟩ := rest.of_done
          cases isValue
          exact ⟨_, rfl, .fault (nextOutcome_fault gathering.onRecord since awaits)⟩
      | ok joined =>
          cases nextOutcome_returns gathering.onRecord awaits with
          | @finished ready rests isEmpty =>
              obtain ⟨-, isValue, rfl⟩ := rest.of_done
              cases isValue
              exact ⟨_, rfl, .gathered ((gathering.rests rests).gathered isEmpty)⟩
          | @joined ready name result rests isNext =>
              have atReady := gathering.rests rests
              cases result with
              | error e =>
                  obtain ⟨rfl, -⟩ := stop_returns rest
                  have completed := List.mem_of_getElem? isNext
                  exact ⟨_, rfl, .taskFailed (atReady.onRecord.now.mayEnd completed)⟩
              | ok v =>
                  obtain ⟨_, stops, _, _, -, checks, rest⟩ := Reaches.of_bind rest
                  have joins := atReady.join distinct (fun _ _ => Except.ok.inj) isNext
                  obtain ⟨goesOn, stopped⟩ := cancelledAndEmpty_gathering joins checks
                  cases stops with
                  | true =>
                      obtain ⟨-, isValue, rfl⟩ := rest.of_done
                      cases isValue
                      obtain ⟨byCaller, isEmpty⟩ := stopped rfl
                      exact ⟨_, rfl, .cancelled byCaller (goesOn.gathered isEmpty)⟩
                  | false =>
                      have awaited := now_le_of_reaches awaits
                      have passed := awaited.trans (now_le_of_reaches checks)
                      refine ih goesOn ?_ (since.trans passed) rest
                      rw [List.length_append, List.length_singleton]
                      omega

/-- From any front gathered, the loop for partial results reports what is so. -/
theorem partialLoop_reports {timeout : Option Nat} {fuel began : Nat} {results : PartialResults T E}
    {value : Option (Result E (PartialResults T E))} (distinct : (tasks.map Prod.fst).Nodup)
    (gathering : Gathering cancels id tasks token set here consumed results)
    (enough : tasks.length < fuel + consumed.length) (since : began ≤ here.now.now)
    (run : Returns (calls cancels).recorded (partialLoop set token timeout fuel results) here
      events value final) :
    ∃ result, value = some result ∧
      PartialReport tasks timeout (cancels token) (final.now.now - began) result := by
  induction fuel generalizing here events consumed results with
  | zero =>
      have bounded := gathering.consumed_le
      omega
  | succ fuel ih =>
      obtain ⟨_, outcome, _, _, -, awaits, rest⟩ := Reaches.of_bind run
      cases outcome with
      | error e =>
          obtain ⟨-, isValue, rfl⟩ := rest.of_done
          cases isValue
          exact ⟨_, rfl, .fault (nextOutcome_fault gathering.onRecord since awaits)⟩
      | ok joined =>
          cases nextOutcome_returns gathering.onRecord awaits with
          | @finished ready rests isEmpty =>
              obtain ⟨-, isValue, rfl⟩ := rest.of_done
              cases isValue
              exact ⟨_, rfl, .gathered ((gathering.rests rests).gathered isEmpty)⟩
          | @joined ready name result rests isNext =>
              have joins := (gathering.rests rests).join distinct (fun _ _ => id) isNext
              refine ih joins ?_ (since.trans (now_le_of_reaches awaits)) rest
              rw [List.length_append, List.length_singleton]
              omega

/-- The token of a batch, given or new, is live unless the caller cancels it. -/
theorem tokenOrDefault_returns {cancellation : Option Nat} {start here : Runtime T E}
    (live : ∀ given, cancellation = some given → cancels given ∨ start.cancelled given = false)
    (run : Returns (runtime (Advances cancels)) (tokenOrDefault cancellation) start events token
      here) :
    (∀ given, cancellation = some given → token = given) ∧
      (cancels token ∨ here.cancelled token = false) := by
  cases cancellation with
  | some given =>
      obtain ⟨-, isToken, rfl⟩ := run.of_done
      obtain rfl : given = token := Program.done.inj isToken.symm
      exact ⟨fun _ same => Option.some.inj same, live given rfl⟩
  | none =>
      obtain ⟨ready, -, rfl, rfl⟩ := run.of_perform
      exact ⟨nofun, .inr (Function.update_self ..)⟩

namespace AnyExecutor

/-- What an executor may report. -/
def Reports : (executor : AnyExecutor T E) → (byCaller : Prop) → (took : Nat) →
    Result E executor.Output → Prop
  | .failFast executor, byCaller, took, result =>
      FailFastReport executor.tasks.entries executor.timeout byCaller took result
  | .withPartialResults executor, byCaller, took, result =>
      PartialReport executor.tasks.entries executor.timeout byCaller took result

/-- With a token that is live unless the caller cancels it, an executor reports what is so. -/
theorem runWith_reports {executor : AnyExecutor T E} {start : Runtime T E} {began : Nat}
    {value : Option (Result E executor.Output)}
    (live : cancels token ∨ start.cancelled token = false) (since : began ≤ start.now)
    (run : Returns (calls cancels).recorded (executor.runWith token) { now := start } events value
      final) :
    ∃ result, value = some result ∧
      executor.Reports (cancels token) (final.now.now - began) result := by
  cases executor with
  | failFast executor =>
      have loops : (AnyExecutor.failFast executor).runWith token =
          spawnTasks executor.tasks token >>= fun set =>
            failFastLoop set token executor.timeout (executor.tasks.entries.length + 1) ∅ := rfl
      rw [loops] at run
      obtain ⟨_, set, _, _, -, spawns, rest⟩ := Reaches.of_bind run
      exact failFastLoop_reports executor.tasks.distinct (.of_spawned live spawns)
        (Nat.lt_succ_self _) (since.trans (now_le_of_reaches spawns)) rest
  | withPartialResults executor =>
      have loops : (AnyExecutor.withPartialResults executor).runWith token =
          spawnTasks executor.tasks token >>= fun set =>
            partialLoop set token executor.timeout (executor.tasks.entries.length + 1) ∅ := rfl
      rw [loops] at run
      obtain ⟨_, set, _, _, -, spawns, rest⟩ := Reaches.of_bind run
      exact partialLoop_reports executor.tasks.distinct (.of_spawned live spawns)
        (Nat.lt_succ_self _) (since.trans (now_le_of_reaches spawns)) rest

/-- In every run from this state the executor reports what is so, where a cancellation is
by the caller and a timeout has elapsed since the start. -/
def ReportsTruly (executor : AnyExecutor T E) (cancels : Nat → Prop) (start : Runtime T E) : Prop :=
  ∀ events value final, Returns (runtime (Advances cancels)) executor.run start events value final →
    ∃ token result, (∀ given, executor.cancellation = some given → token = given) ∧
      value = some result ∧ executor.Reports (cancels token) (final.now - start.now) result

end AnyExecutor

/-- Either executor reports what is so: the results of all its tasks, or the error of a
task that may have returned it, or a failed join, an elapsed timeout or a cancellation,
none of which it makes up. -/
theorem executor_reports_truly (executor : AnyExecutor T E) (cancels : Nat → Prop)
    (start : Runtime T E)
    (live : ∀ token, executor.cancellation = some token →
      cancels token ∨ start.cancelled token = false) :
    executor.ReportsTruly cancels start := by
  intro events value final run
  rw [AnyExecutor.run_eq] at run
  obtain ⟨_, token, here, _, -, gets, run⟩ := Reaches.of_bind run
  obtain ⟨isGiven, isLive⟩ := tokenOrDefault_returns live gets
  rw [← calls_world] at gets run
  obtain ⟨_, recordedGets, rfl⟩ := Service.recorded_of_reaches _ gets { now := start } rfl
  obtain ⟨_, recordedRun, rfl⟩ := Service.recorded_of_reaches _ run ⟨_, []⟩ rfl
  obtain ⟨result, isResult, reports⟩ :=
    AnyExecutor.runWith_reports isLive (now_le_of_reaches recordedGets) recordedRun
  exact ⟨token, result, isGiven, isResult, reports⟩

/-- A batch with a panic and a timeout, under a token of the caller's. -/
def panicAndTimeout : AnyExecutor Nat String :=
  .failFast (((executeConcurrently panicAndWait).withCancellation 0).withTimeout 5)

/-- One task panics and the other takes too long. -/
theorem executor_reports_truly_panicAndTimeout : panicAndTimeout.ReportsTruly (· = 0) {} :=
  executor_reports_truly _ _ _ fun _ given => .inl (Option.some.inj given).symm

end AltairRs.Concurrent
