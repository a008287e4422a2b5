import AltairRs.Concurrent.Cancellable

/-!
# How an executor is left

Every exit of the two loops, in whatever order tasks complete, calls time out and the
caller cancels: with results, once everything has been joined; with an error, after
the token was cancelled; or, where joining a task failed, without.
-/

namespace AltairRs.Concurrent

open Effect Keyed Relation

variable {T E α : Type} {cancels : Nat → Prop} {tasks : List (String × TaskFn T E)}
  {token set : Nat} {here ready next final : Recorded (Runtime T E)}
  {events : List (Event (runtimeSignature T E))}

/-- A batch on the record. -/
structure OnRecord (cancels : Nat → Prop) (tasks : List (String × TaskFn T E)) (token set : Nat)
    (here : Recorded (Runtime T E)) : Prop where
  now : Cancellable cancels tasks token set here.now
  earlier : ∀ moment ∈ here.earlier, Follows tasks token set moment here.now

/-- One more moment is on record. -/
theorem OnRecord.pass (onRecord : OnRecord cancels tasks token set here) {state : Runtime T E}
    (cancellable : Cancellable cancels tasks token set state)
    (follows : Follows tasks token set here.now state) :
    OnRecord cancels tasks token set (here.pass state) := by
  refine ⟨cancellable, List.forall_mem_cons.mpr ⟨follows, fun moment member => ?_⟩⟩
  exact (onRecord.earlier moment member).trans follows

/-- What rests stays on record. -/
theorem OnRecord.rests (onRecord : OnRecord cancels tasks token set here)
    (rests : ReflTransGen (calls cancels).Records here ready) :
    OnRecord cancels tasks token set ready := by
  induction rests with
  | refl => exact onRecord
  | tail _ step ih =>
      obtain ⟨advances⟩ := step
      obtain ⟨cancellable, follows⟩ := ih.now.advances advances
      exact ih.pass cancellable follows

/-- Nothing is joined while calls advance. -/
theorem Advances.joined {here next : Runtime T E} (advances : Advances cancels here next)
    (set : Nat) : (next.joinSet set).joined = (here.joinSet set).joined := by
  rcases advances.joinSet set with same | ⟨-, _, _, _, _, -, -, isNext⟩
  · rw [same]
  · rw [isNext]

/-- Nothing is joined while the program rests. -/
theorem joined_of_rests (rests : ReflTransGen (calls cancels).Records here ready) (set : Nat) :
    (ready.now.joinSet set).joined = (here.now.joinSet set).joined := by
  induction rests with
  | refl => rfl
  | tail _ step ih =>
      obtain ⟨advances⟩ := step
      exact (Advances.joined advances set).trans ih

/-- A token that is cancelled stays so while the program rests. -/
theorem cancelled_of_rests (rests : ReflTransGen (calls cancels).Records here ready)
    (isCancelled : here.now.cancelled token = true) : ready.now.cancelled token = true := by
  induction rests with
  | refl => exact isCancelled
  | tail _ step ih =>
      obtain ⟨advances⟩ := step
      exact Advances.cancelled advances ih

/-- At no moment was the token cancelled before all tasks had completed. -/
def Unmissed (tasks : List (String × TaskFn T E)) (token set : Nat)
    (here : Recorded (Runtime T E)) : Prop :=
  ∀ moment ∈ here.moments, moment.cancelled token = true →
    ∀ entry ∈ tasks, entry.1 ∈ (moment.joinSet set).completed.map Prod.fst

/-- If everything has been joined, the token was not cancelled before. -/
def Checked (tasks : List (String × TaskFn T E)) (token set : Nat)
    (here : Recorded (Runtime T E)) : Prop :=
  (here.now.joinSet set).isEmpty = true → Unmissed tasks token set here

/-- What is not missed is not missed one moment later. -/
theorem Unmissed.pass (unmissed : Unmissed tasks token set here) {state : Runtime T E}
    (cancellable : Cancellable cancels tasks token set state)
    (isEmpty : (state.joinSet set).isEmpty = true) :
    Unmissed tasks token set (here.pass state) := by
  refine List.forall_mem_cons.mpr ⟨fun _ entry member => ?_, unmissed⟩
  exact (cancellable.all_completed isEmpty).mem_iff.mpr (List.mem_map_of_mem member)

/-- What was checked stays so while the program rests. -/
theorem Checked.rests (checked : Checked tasks token set here)
    (onRecord : OnRecord cancels tasks token set here)
    (rests : ReflTransGen (calls cancels).Records here ready) : Checked tasks token set ready := by
  induction rests with
  | refl => exact checked
  | tail earlier step ih =>
      obtain ⟨advances⟩ := step
      have before := (onRecord.rests earlier).now
      intro isEmpty
      exact (ih (before.advances_isEmpty advances isEmpty)).pass (before.advances advances).1
        isEmpty

/-- An exit with an error: the token has been cancelled, or joining a task failed that
ended with its token not cancelled. -/
inductive LeftBy (cancels : Nat → Prop) (tasks : List (String × TaskFn T E)) (token set : Nat) :
    Error E → Recorded (Runtime T E) → Prop where
  | signalled {e final} (isCancelled : final.now.cancelled token = true)
      (byCaller : e = .cancelled → cancels token) : LeftBy cancels tasks token set e final
  | joinFailed {name task source final} (isTask : (name, task) ∈ tasks)
      (ends : task false (.aborted source))
      (completed : name ∈ (final.now.joinSet set).completed.map Prod.fst) :
      LeftBy cancels tasks token set (.join source) final

/-- What a loop is left with. -/
inductive Left (cancels : Nat → Prop) (tasks : List (String × TaskFn T E)) (token set : Nat)
    (Gathers : Recorded (Runtime T E) → Prop) :
    Option (Result E α) → Recorded (Runtime T E) → Prop where
  | returned {results final} (onRecord : OnRecord cancels tasks token set final)
      (isEmpty : (final.now.joinSet set).isEmpty = true) (gathers : Gathers final) :
      Left cancels tasks token set Gathers (some (.ok results)) final
  | failed {e final} (leftBy : LeftBy cancels tasks token set e final) :
      Left cancels tasks token set Gathers (some (.error e)) final

/-- What awaiting the next outcome comes to. -/
inductive Awaited (cancels : Nat → Prop) (tasks : List (String × TaskFn T E)) (token set : Nat)
    (here : Recorded (Runtime T E)) :
    Result E (Option (TaskOutcome T E)) → Recorded (Runtime T E) → Prop where
  | finished {ready : Recorded (Runtime T E)}
      (rests : ReflTransGen (calls cancels).Records here ready)
      (isEmpty : (ready.now.joinSet set).isEmpty = true) :
      Awaited cancels tasks token set here (.ok none) (ready.pass ready.now)
  | joined {ready : Recorded (Runtime T E)} {name result}
      (rests : ReflTransGen (calls cancels).Records here ready)
      (isNext : (ready.now.joinSet set).completed[(ready.now.joinSet set).joined]? =
        some (name, .returned result)) :
      Awaited cancels tasks token set here (.ok (some (name, result)))
        (ready.pass (ready.now.put set { ready.now.joinSet set with
          joined := (ready.now.joinSet set).joined + 1 }))
  | failed {e next} (leftBy : LeftBy cancels tasks token set e next) :
      Awaited cancels tasks token set here (.error e) next

/-- A poll that is ready. -/
theorem OnRecord.awaited (onRecord : OnRecord cancels tasks token set here)
    (rests : ReflTransGen (calls cancels).Records here ready)
    {raw : Option (Except JoinError (TaskOutcome T E))} {after : JoinSet T E}
    (polled : (ready.now.joinSet set).joinNext = some (raw, after)) :
    Awaited cancels tasks token set here (outcomeOf raw)
      (ready.pass (ready.now.put set after)) := by
  unfold JoinSet.joinNext at polled
  split at polled
  · next entry isNext =>
      obtain ⟨rfl, rfl⟩ := Prod.mk.inj (Option.some.inj polled)
      obtain ⟨name, result | source⟩ := entry
      · exact .joined rests isNext
      · obtain ⟨task, isTask, ends⟩ :=
          (onRecord.rests rests).now.completed _ (List.mem_of_getElem? isNext)
        refine .failed ?_
        rcases ends with uncancelled | ⟨-, isCancelled⟩
        · refine .joinFailed isTask uncancelled ?_
          rw [Recorded.pass, Runtime.put_joinSet_self]
          exact List.mem_map_of_mem (List.mem_of_getElem? isNext)
        · exact .signalled isCancelled nofun
  · next noneLeft =>
      split_ifs at polled with idle
      obtain ⟨rfl, rfl⟩ := Prod.mk.inj (Option.some.inj polled)
      rw [Runtime.put_self]
      refine .finished rests (JoinSet.isEmpty_iff.mpr ⟨List.isEmpty_iff.mp idle, ?_⟩)
      exact List.getElem?_eq_none_iff.mp noneLeft

/-- The exits that cancel the token and shut the set down. -/
theorem stop_returns {value returned : α}
    (run : Returns (calls (T := T) (E := E) cancels).recorded
      (do cancel token; shutdown set; return value) here events returned final) :
    returned = value ∧ final.now.cancelled token = true := by
  obtain ⟨_, _, signalled, _, -, cancels, rest⟩ := Reaches.of_bind run
  obtain ⟨_, _, down, _, -, shuts, rest⟩ := Reaches.of_bind rest
  obtain ⟨-, isValue, rfl⟩ := rest.of_done
  cases isValue
  obtain ⟨ready, _, _, rfl, rfl⟩ := cancels.of_perform
  obtain ⟨later, _, rests, rfl, rfl⟩ := shuts.of_perform
  have isCancelled : (ready.now.cancel token).cancelled token = true := Function.update_self ..
  have stays : later.now.cancelled token = true := cancelled_of_rests rests isCancelled
  exact ⟨rfl, stays⟩

/-- What the next outcome says has happened. -/
theorem nextOutcome_returns {timeout : Option Nat}
    {outcome : Result E (Option (TaskOutcome T E))}
    (onRecord : OnRecord cancels tasks token set here)
    (run : Returns (calls cancels).recorded (nextOutcome set token timeout) here events outcome
      next) :
    Awaited cancels tasks token set here outcome next := by
  cases timeout with
  | none =>
      obtain ⟨_, raw, _, _, -, joins, rest⟩ := Reaches.of_bind run
      obtain ⟨-, isOutcome, rfl⟩ := rest.of_done
      cases isOutcome
      obtain ⟨ready, _, rests, ⟨after, polled, rfl⟩, rfl⟩ := joins.of_perform
      exact onRecord.awaited rests polled
  | some duration =>
      obtain ⟨_, response, _, _, -, joins, rest⟩ := Reaches.of_bind run
      obtain ⟨ready, state, rests, effect, rfl⟩ := joins.of_perform
      cases response with
      | some raw =>
          obtain ⟨-, isOutcome, rfl⟩ := rest.of_done
          cases isOutcome
          obtain ⟨_, after, polled, rfl⟩ := effect
          exact onRecord.awaited rests polled
      | none =>
          obtain ⟨rfl, isCancelled⟩ := stop_returns rest
          exact .failed (.signalled isCancelled nofun)

/-- What the check between two outcomes finds. -/
structure ChecksAs (cancels : Nat → Prop) (tasks : List (String × TaskFn T E)) (token set : Nat)
    (here : Recorded (Runtime T E)) (stops : Bool) (next : Recorded (Runtime T E)) : Prop where
  onRecord : OnRecord cancels tasks token set next
  joined : (next.now.joinSet set).joined = (here.now.joinSet set).joined
  cancelled : stops = true → next.now.cancelled token = true
  checked : stops = false → Checked tasks token set next

/-- If the token is found live when everything has been joined, it has been live at
every moment until then. -/
theorem cancelledAndEmpty_returns {stops : Bool}
    (onRecord : OnRecord cancels tasks token set here)
    (run : Returns (calls cancels).recorded (cancelledAndEmpty set token) here events stops next) :
    ChecksAs cancels tasks token set here stops next := by
  obtain ⟨_, isCancelled, _, _, -, asks, rest⟩ := Reaches.of_bind run
  obtain ⟨ready, _, rests, ⟨rfl, rfl⟩, rfl⟩ := asks.of_perform
  have atReady := onRecord.rests rests
  have onward := atReady.pass atReady.now (.refl _)
  have joined := joined_of_rests rests set
  cases found : ready.now.cancelled token with
  | false =>
      rw [found] at rest
      obtain ⟨-, isValue, rfl⟩ := rest.of_done
      cases isValue
      refine ⟨onward, joined, nofun, fun _ isEmpty moment member isCancelled => ?_⟩
      have stays : ready.now.cancelled token = true := by
        rcases List.mem_cons.mp member with rfl | earlier
        · exact isCancelled
        · exact (onward.earlier moment earlier).cancelled isCancelled
      rw [found] at stays
      cases stays
  | true =>
      rw [found] at rest
      obtain ⟨later, _, restsAgain, ⟨rfl, rfl⟩, rfl⟩ := rest.of_perform
      have atLater := onward.rests restsAgain
      have stays : later.now.cancelled token = true := cancelled_of_rests restsAgain found
      refine ⟨atLater.pass atLater.now (.refl _), (joined_of_rests restsAgain set).trans joined,
        fun _ => stays, fun nonempty isEmpty => ?_⟩
      cases nonempty.symm.trans isEmpty

/-- The fail-fast loop. A cancellation before all tasks had completed is not missed. -/
theorem failFastLoop_left {timeout : Option Nat} {fuel : Nat} {results : AList fun _ : String => T}
    {value : Option (Result E (AList fun _ : String => T))}
    (onRecord : OnRecord cancels tasks token set here) (checked : Checked tasks token set here)
    (enough : tasks.length < fuel + (here.now.joinSet set).joined)
    (run : Returns (calls cancels).recorded (failFastLoop set token timeout fuel results) here
      events value final) :
    Left cancels tasks token set (Unmissed tasks token set) value final := by
  induction fuel generalizing here events results with
  | zero =>
      have joined := onRecord.now.joined_le
      omega
  | succ fuel ih =>
      obtain ⟨_, outcome, _, _, -, awaits, rest⟩ := Reaches.of_bind run
      cases nextOutcome_returns onRecord awaits with
      | failed leftBy =>
          obtain ⟨-, isValue, rfl⟩ := rest.of_done
          cases isValue
          exact .failed leftBy
      | @finished ready rests isEmpty =>
          obtain ⟨-, isValue, rfl⟩ := rest.of_done
          cases isValue
          have atReady := onRecord.rests rests
          have unmissed := checked.rests onRecord rests isEmpty
          exact .returned (atReady.pass atReady.now (.refl _)) isEmpty
            (unmissed.pass atReady.now isEmpty)
      | @joined ready name result rests isNext =>
          cases result with
          | error e =>
              obtain ⟨rfl, isCancelled⟩ := stop_returns rest
              exact .failed (.signalled isCancelled nofun)
          | ok v =>
              obtain ⟨_, stops, _, _, -, checks, rest⟩ := Reaches.of_bind rest
              have atReady := onRecord.rests rests
              have joined := atReady.pass (atReady.now.join isNext)
                (.of_same rfl (by rw [Runtime.put_joinSet_self]))
              have checksAs := cancelledAndEmpty_returns joined checks
              cases stops with
              | true =>
                  obtain ⟨-, isValue, rfl⟩ := rest.of_done
                  cases isValue
                  have isCancelled := checksAs.cancelled rfl
                  refine .failed (.signalled isCancelled fun _ => ?_)
                  exact checksAs.onRecord.now.live.resolve_right (by rw [isCancelled]; nofun)
              | false =>
                  refine ih checksAs.onRecord (checksAs.checked rfl) ?_ rest
                  have count := joined_of_rests rests set
                  have oneMore := checksAs.joined
                  rw [Recorded.pass, Runtime.put_joinSet_self] at oneMore
                  dsimp only at oneMore
                  omega

/-- The loop for partial results. -/
theorem partialLoop_left {timeout : Option Nat} {fuel : Nat} {results : PartialResults T E}
    {value : Option (Result E (PartialResults T E))}
    (onRecord : OnRecord cancels tasks token set here)
    (enough : tasks.length < fuel + (here.now.joinSet set).joined)
    (run : Returns (calls cancels).recorded (partialLoop set token timeout fuel results) here
      events value final) :
    Left cancels tasks token set (fun _ => True) value final := by
  induction fuel generalizing here events results with
  | zero =>
      have joined := onRecord.now.joined_le
      omega
  | succ fuel ih =>
      obtain ⟨_, outcome, _, _, -, awaits, rest⟩ := Reaches.of_bind run
      cases nextOutcome_returns onRecord awaits with
      | failed leftBy =>
          obtain ⟨-, isValue, rfl⟩ := rest.of_done
          cases isValue
          exact .failed leftBy
      | @finished ready rests isEmpty =>
          obtain ⟨-, isValue, rfl⟩ := rest.of_done
          cases isValue
          have atReady := onRecord.rests rests
          exact .returned (atReady.pass atReady.now (.refl _)) isEmpty trivial
      | @joined ready name result rests isNext =>
          have atReady := onRecord.rests rests
          have joined := atReady.pass (atReady.now.join isNext)
            (.of_same rfl (by rw [Runtime.put_joinSet_self]))
          refine ih joined ?_ rest
          have count := joined_of_rests rests set
          rw [Recorded.pass, Runtime.put_joinSet_self]
          dsimp only
          omega

/-- A task that is spawned is on record. -/
theorem OnRecord.spawn (onRecord : OnRecord cancels tasks token set here) (name : String)
    (task : TaskFn T E) :
    OnRecord cancels (tasks ++ [(name, task)]) token set
      (here.pass (here.now.put set ((here.now.joinSet set).spawn { name, task, token }))) := by
  have follows : Follows tasks token set here.now
      (here.now.put set ((here.now.joinSet set).spawn { name, task, token })) :=
    .of_same rfl (by rw [Runtime.put_joinSet_self]; rfl)
  refine ⟨onRecord.now.spawn name task, List.forall_mem_cons.mpr ⟨?_, fun moment member => ?_⟩⟩
  · exact follows.mono fun _ => List.mem_append_left _
  · exact ((onRecord.earlier moment member).trans follows).mono fun _ => List.mem_append_left _

/-- Every task is spawned. -/
theorem spawnAll_returns {rest : List (String × TaskFn T E)} {done : Unit}
    (onRecord : OnRecord cancels tasks token set here)
    (run : Returns (calls cancels).recorded (spawnAll set token rest) here events done final) :
    OnRecord cancels (tasks ++ rest) token set final ∧
      (final.now.joinSet set).joined = (here.now.joinSet set).joined := by
  induction rest generalizing tasks here events with
  | nil =>
      obtain ⟨-, -, rfl⟩ := run.of_done
      rw [List.append_nil]
      exact ⟨onRecord, rfl⟩
  | cons entry rest ih =>
      obtain ⟨name, task⟩ := entry
      obtain ⟨_, _, _, _, -, spawns, later⟩ := Reaches.of_bind run
      obtain ⟨ready, _, rests, rfl, rfl⟩ := spawns.of_perform
      obtain ⟨all, joined⟩ := ih ((onRecord.rests rests).spawn name task) later
      rw [List.append_cons]
      refine ⟨all, joined.trans ?_⟩
      rw [Recorded.pass, Runtime.put_joinSet_self]
      exact joined_of_rests rests set

/-- Before its set is made, a batch is about its token only. -/
theorem token_of_rests {start : Runtime T E} (live : cancels token ∨ start.cancelled token = false)
    (rests : ReflTransGen (calls cancels).Records { now := start } ready) :
    (cancels token ∨ ready.now.cancelled token = false) ∧
      ∀ moment ∈ ready.earlier, moment.cancelled token = true →
        ready.now.cancelled token = true := by
  induction rests with
  | refl => exact ⟨live, nofun⟩
  | tail _ step ih =>
      obtain ⟨advances⟩ := step
      obtain ⟨stillLive, stays⟩ := ih
      refine ⟨Advances.live advances stillLive, List.forall_mem_cons.mpr ⟨?_, ?_⟩⟩
      · exact Advances.cancelled advances
      · exact fun moment member isCancelled =>
          Advances.cancelled advances (stays moment member isCancelled)

/-- A set in which nothing was spawned yet. -/
theorem OnRecord.of_new (live : cancels token ∨ here.now.cancelled token = false)
    (stays : ∀ moment ∈ here.earlier, moment.cancelled token = true →
      here.now.cancelled token = true) (isNew : here.now.joinSet set = {}) :
    OnRecord cancels [] token set here := by
  refine ⟨⟨live, ?_, ?_, ?_, ?_, ?_⟩, fun moment member => ⟨stays moment member, ?_⟩⟩ <;> rw [isNew]
  · exact .nil
  · exact nofun
  · exact nofun
  · exact Nat.le_refl _
  · exact nofun
  · exact fun _ => nofun

/-- The tasks are spawned into a set of the batch's own. -/
theorem spawnTasks_returns {map : TaskMap T E} {start : Runtime T E}
    (live : cancels token ∨ start.cancelled token = false)
    (run : Returns (calls cancels).recorded (spawnTasks map token) { now := start } events set
      final) :
    OnRecord cancels map.entries token set final ∧ (final.now.joinSet set).joined = 0 := by
  obtain ⟨_, made, _, _, -, makes, rest⟩ := Reaches.of_bind run
  obtain ⟨_, _, _, _, -, spawns, rest⟩ := Reaches.of_bind rest
  obtain ⟨-, isSet, rfl⟩ := rest.of_done
  cases isSet
  obtain ⟨ready, _, rests, ⟨rfl, rfl⟩, rfl⟩ := makes.of_perform
  obtain ⟨stillLive, stays⟩ := token_of_rests live rests
  generalize isMade : ready.pass _ = made at spawns
  have isNew : made.now.joinSet ready.now.sets = {} := by
    rw [← isMade]
    exact Runtime.put_joinSet_self ..
  have atNew : OnRecord cancels [] token ready.now.sets made := by
    refine .of_new ?_ ?_ isNew <;> rw [← isMade]
    · exact stillLive
    · exact List.forall_mem_cons.mpr ⟨id, stays⟩
  obtain ⟨all, joined⟩ := spawnAll_returns atNew spawns
  refine ⟨all, joined.trans ?_⟩
  rw [isNew]

/-- Only these tasks are spawned, into this set and with this token. -/
def SpawnsOnly (tasks : List (String × TaskFn T E)) (token set : Nat) (op : RuntimeOp T E) : Prop :=
  ∀ other spawned, op = .spawn other spawned →
    other = set ∧ spawned.token = token ∧ spawned.name ∈ tasks.map Prod.fst

/-- Awaiting an outcome spawns nothing. -/
theorem nextOutcome_asks (timeout : Option Nat) :
    (nextOutcome set token timeout).Asks (SpawnsOnly tasks token set) := by
  cases timeout with
  | none => exact ⟨nofun, fun _ => trivial⟩
  | some duration =>
      refine ⟨nofun, fun response => ?_⟩
      cases response with
      | none => exact ⟨nofun, fun _ => ⟨nofun, fun _ => trivial⟩⟩
      | some raw => trivial

/-- Nor does looking at the token and the set. -/
theorem cancelledAndEmpty_asks :
    (cancelledAndEmpty set token).Asks (SpawnsOnly tasks token set) := by
  refine ⟨nofun, fun isCancelled => ?_⟩
  cases isCancelled with
  | false => trivial
  | true => exact ⟨nofun, fun _ => trivial⟩

/-- Nor does the fail-fast loop. -/
theorem failFastLoop_asks (timeout : Option Nat) (fuel : Nat)
    (results : AList fun _ : String => T) :
    (failFastLoop set token timeout fuel results).Asks (SpawnsOnly tasks token set) := by
  induction fuel generalizing results with
  | zero => trivial
  | succ fuel ih =>
      apply Program.Asks.bind (nextOutcome_asks timeout)
      rintro (e | _ | ⟨name, e | v⟩)
      · trivial
      · trivial
      · exact ⟨nofun, fun _ => ⟨nofun, fun _ => trivial⟩⟩
      · apply Program.Asks.bind cancelledAndEmpty_asks
        rintro (_ | _)
        · exact ih _
        · trivial

/-- Nor does the loop with partial results. -/
theorem partialLoop_asks (timeout : Option Nat) (fuel : Nat) (results : PartialResults T E) :
    (partialLoop set token timeout fuel results).Asks (SpawnsOnly tasks token set) := by
  induction fuel generalizing results with
  | zero => trivial
  | succ fuel ih =>
      apply Program.Asks.bind (nextOutcome_asks timeout)
      rintro (e | _ | _)
      · trivial
      · trivial
      · exact ih _

/-- Spawning asks for the listed tasks only. -/
theorem spawnAll_asks (rest : List (String × TaskFn T E))
    (listed : ∀ entry ∈ rest, entry.1 ∈ tasks.map Prod.fst) :
    (spawnAll set token rest).Asks (SpawnsOnly tasks token set) := by
  induction rest with
  | nil => trivial
  | cons entry rest ih =>
      obtain ⟨first, later⟩ := List.forall_mem_cons.mp listed
      refine ⟨?_, fun _ => ih later⟩
      rintro _ _ ⟨⟩
      exact ⟨rfl, rfl, first⟩

/-- A run spawns its tasks into the set that it made. -/
theorem spawnTasks_events {map : TaskMap T E} {start : Recorded (Runtime T E)}
    (run : Returns (calls cancels).recorded (spawnTasks map token) start events set final) :
    ∀ event ∈ events, SpawnsOnly map.entries token set event.operation := by
  obtain ⟨_, made, _, _, rfl, makes, rest⟩ := Reaches.of_bind run
  obtain ⟨_, _, _, _, rfl, spawns, rest⟩ := Reaches.of_bind rest
  obtain ⟨rfl, isSet, -⟩ := rest.of_done
  cases isSet
  have asksNew : (newSet (T := T) (E := E)).Asks (SpawnsOnly map.entries token set) :=
    ⟨nofun, fun _ => trivial⟩
  intro event member
  rcases List.mem_append.mp member with isNew | spawned
  · exact asksNew.events makes event isNew
  · rw [List.append_nil] at spawned
    exact (spawnAll_asks map.entries fun _ => List.mem_map_of_mem).events spawns event spawned

/-- When nothing has been joined, nothing has been missed. -/
theorem OnRecord.checked (onRecord : OnRecord cancels tasks token set here)
    (joined : (here.now.joinSet set).joined = 0) : Checked tasks token set here := by
  intro isEmpty moment _ _ entry isTask
  have names := onRecord.now.all_completed isEmpty
  have none := (JoinSet.isEmpty_iff.mp isEmpty).2
  rw [joined, Nat.le_zero, List.length_eq_zero_iff] at none
  rw [none, List.map_nil, List.nil_perm, List.map_eq_nil_iff] at names
  rw [names] at isTask
  cases isTask

/-- What a loop gathers when it is left with results. -/
def AnyExecutor.Gathers (token set : Nat) : AnyExecutor T E → Recorded (Runtime T E) → Prop
  | .failFast executor => Unmissed executor.tasks.entries token set
  | .withPartialResults _ => fun _ => True

/-- How either executor is left, and what it has spawned by then. -/
theorem runWith_left {executor : AnyExecutor T E} {start : Runtime T E}
    {value : Option (Result E executor.Output)}
    (live : cancels token ∨ start.cancelled token = false)
    (run : Returns (calls cancels).recorded (executor.runWith token) { now := start } events value
      final) :
    ∃ set, (∀ event ∈ events, SpawnsOnly executor.tasks.entries token set event.operation) ∧
      Left cancels executor.tasks.entries token set (executor.Gathers token set) value final := by
  cases executor with
  | failFast executor =>
      have loops : (AnyExecutor.failFast executor).runWith token =
          spawnTasks executor.tasks token >>= fun set =>
            failFastLoop set token executor.timeout (executor.tasks.entries.length + 1) ∅ := rfl
      rw [loops] at run
      obtain ⟨_, set, _, _, rfl, spawns, rest⟩ := Reaches.of_bind run
      obtain ⟨onRecord, joined⟩ := spawnTasks_returns live spawns
      refine ⟨set, List.forall_mem_append.mpr ⟨spawnTasks_events spawns, ?_⟩, ?_⟩
      · exact (failFastLoop_asks _ _ _).events rest
      · exact failFastLoop_left onRecord (onRecord.checked joined)
          (Nat.lt_add_right _ (Nat.lt_succ_self _)) rest
  | withPartialResults executor =>
      have loops : (AnyExecutor.withPartialResults executor).runWith token =
          spawnTasks executor.tasks token >>= fun set =>
            partialLoop set token executor.timeout (executor.tasks.entries.length + 1) ∅ := rfl
      rw [loops] at run
      obtain ⟨_, set, _, _, rfl, spawns, rest⟩ := Reaches.of_bind run
      obtain ⟨onRecord, joined⟩ := spawnTasks_returns live spawns
      refine ⟨set, List.forall_mem_append.mpr ⟨spawnTasks_events spawns, ?_⟩, ?_⟩
      · exact (partialLoop_asks _ _ _).events rest
      · exact partialLoop_left onRecord (Nat.lt_add_right _ (Nat.lt_succ_self _)) rest

end AltairRs.Concurrent
