import AltairRs.Concurrent.Executor
import AltairRs.Effect.Interference

/-!
# Batches that share a token

Two batches are given clones of one token. An executor works with the token it was
given and cancels that one when its batch fails or times out, so the other batch is
cancelled too; the module settles for which batches this never happens.
-/

namespace AltairRs.Concurrent

open Effect Keyed

variable {T E α : Type}

/-- Either executor. -/
inductive AnyExecutor (T E : Type) where
  | failFast (executor : Executor T E)
  | withPartialResults (executor : PartialExecutor T E)

namespace AnyExecutor

def tasks : AnyExecutor T E → TaskMap T E
  | .failFast executor => executor.tasks
  | .withPartialResults executor => executor.tasks

def timeout : AnyExecutor T E → Option Nat
  | .failFast executor => executor.timeout
  | .withPartialResults executor => executor.timeout

/-- What the batch gathers. -/
abbrev Output : AnyExecutor T E → Type
  | .failFast _ => AList fun _ : String => T
  | .withPartialResults _ => PartialResults T E

/-- Await the executor with the caller's token attached. -/
def runWith (token : Nat) :
    (executor : AnyExecutor T E) → RuntimeProgram T E (Option (Result E executor.Output))
  | .failFast executor =>
      runFailFast (executor.tasks.entries.length + 1) (executor.withCancellation token)
  | .withPartialResults executor =>
      runPartial (executor.tasks.entries.length + 1) (executor.withCancellation token)

/-- The batch has failed or timed out: its timeout elapsed, joining a task failed, or
a task failed and that ends the batch. -/
def Fails : AnyExecutor T E → Event (runtimeSignature T E) → Prop
  | _, ⟨.joinNextTimeout .., none⟩ => True
  | _, ⟨.joinNextTimeout .., some (some (.error _))⟩ => True
  | _, ⟨.joinNext _, some (.error _)⟩ => True
  | .failFast _, ⟨.joinNextTimeout .., some (some (.ok (_, .error _)))⟩ => True
  | .failFast _, ⟨.joinNext _, some (.ok (_, .error _))⟩ => True
  | _, _ => False

/-- With its token not cancelled, the batch may fail so that it cancels the token: its
timeout may elapse, or a task may fail and that ends the batch. -/
def CanSignal : AnyExecutor T E → Prop
  | .failFast executor => executor.timeout.isSome ∧ executor.tasks.entries ≠ [] ∨
      ∃ entry ∈ executor.tasks.entries, ∃ e, entry.2 false (.returned (.error e))
  | .withPartialResults executor => executor.timeout.isSome ∧ executor.tasks.entries ≠ []

end AnyExecutor

/-- The runtime, with a caller that never cancels this token. -/
def batches (token : Nat) : Service (runtimeSignature T E) (Runtime T E) where
  Environment := Advances (· ≠ token)
  Answers start ready op response next := op.Effect start ready response next

/-- The batches share the runtime. -/
theorem batches_world (token : Nat) :
    (batches (T := T) (E := E) token).world = runtime (Advances (· ≠ token)) := rfl

/-- What two batches with clones of one token come to from a runtime in which the
token is not cancelled. -/
def Interleaves (token : Nat) (first second : AnyExecutor T E) (start : Runtime T E)
    (pair : Pair (runtimeSignature T E) (Runtime T E) (Option (Result E first.Output))
      (Option (Result E second.Output))) : Prop :=
  start.cancelled token = false ∧
    Pair.Steps (batches token) (Pair.start start (first.runWith token) (second.runWith token)) pair

/-- The documented isolation: in every interleaving the tasks of a batch see their
token cancelled only if that batch itself has failed or timed out. -/
def Isolated (token : Nat) (first second : AnyExecutor T E) : Prop :=
  ∀ start pair, Interleaves token first second start pair → pair.state.cancelled token = true →
    (∃ event ∈ pair.firstEvents, first.Fails event) ∧
      ∃ event ∈ pair.secondEvents, second.Fails event

/-- No interleaving changes the state of the caller's token. -/
def LeavesToken (token : Nat) (first second : AnyExecutor T E) : Prop :=
  ∀ start pair, Interleaves token first second start pair → pair.state.cancelled token = false

/-- What others may do while a batch with these sets is in flight. -/
inductive Elsewhere (token : Nat) (own : Nat → Prop) (here next : Runtime T E) : Prop where
  | environment (advances : Advances (· ≠ token) here next)
  | foreign (sets : ∀ set, own set → next.joinSet set = here.joinSet set)
      (cancelled : next.cancelled token = here.cancelled token)

/-- What a batch with these sets does: it makes sets and changes its own. -/
structure OnOwnSets (token : Nat) (own : Nat → Prop) (here : Runtime T E) (own' : Nat → Prop)
    (next : Runtime T E) : Prop where
  foreign : ∀ set, set < here.sets → ¬ own set → next.joinSet set = here.joinSet set
  cancelled : next.cancelled token = here.cancelled token
  sets : here.sets ≤ next.sets
  owned : ∀ set, own' set → own set ∨ here.sets ≤ set ∧ set < next.sets

/-- The token is not cancelled, and no set has two owners. -/
structure Apart (token : Nat) (own other : Nat → Prop) (here : Runtime T E) : Prop where
  live : here.cancelled token = false
  disjoint : ∀ set, own set → ¬ other set
  allocated : ∀ set, own set ∨ other set → set < here.sets

/-- Nobody cancels this token. -/
theorem Advances.spares {token : Nat} {here next : Runtime T E}
    (advances : Advances (· ≠ token) here next) : next.cancelled token = here.cancelled token :=
  (advances.token token).resolve_right fun cancelled => cancelled.1 rfl

/-- Batches interfere through the token only. -/
def sharing (token : Nat) : Interference (batches (T := T) (E := E) token) (Nat → Prop) where
  Rely := Elsewhere token
  Guarantee := OnOwnSets token
  Compatible := Apart token
  symm apart := ⟨apart.live, fun set mine theirs => apart.disjoint set theirs mine,
    fun set owned => apart.allocated set owned.symm⟩
  environment := by
    intro own other here next apart advances
    refine ⟨.environment advances, advances.spares.trans apart.live, apart.disjoint, ?_⟩
    rw [advances.sets]
    exact apart.allocated
  guarantee := by
    intro own other here own' next apart keeps
    refine ⟨.foreign (fun set theirs => ?_) keeps.cancelled, keeps.cancelled.trans apart.live,
      ?_, ?_⟩
    · exact keeps.foreign set (apart.allocated set (.inr theirs)) fun mine =>
        apart.disjoint set mine theirs
    · intro set mine theirs
      rcases keeps.owned set mine with old | ⟨isNew, _⟩
      · exact apart.disjoint set old theirs
      · exact absurd (apart.allocated set (.inr theirs)) (Nat.not_lt.mpr isNew)
    · rintro set (mine | theirs)
      · rcases keeps.owned set mine with old | ⟨_, isNew⟩
        · exact (apart.allocated set (.inl old)).trans_le keeps.sets
        · exact isNew
      · exact (apart.allocated set (.inr theirs)).trans_le keeps.sets

variable {token set : Nat} {tasks : List (String × TaskFn T E)} {own : Nat → Prop}
  {since here ready : Runtime T E}

/-- The tasks of a set whose token nobody has cancelled: they run with that token, or
have completed without having seen it cancelled. -/
structure Uncancelled (tasks : List (String × TaskFn T E)) (token set : Nat) (here : Runtime T E) :
    Prop where
  live : here.cancelled token = false
  running : ∀ spawned ∈ (here.joinSet set).running,
    spawned.token = token ∧ (spawned.name, spawned.task) ∈ tasks
  completed : ∀ entry ∈ (here.joinSet set).completed,
    ∃ task, (entry.1, task) ∈ tasks ∧ task false entry.2

/-- A completion, which has not seen its token cancelled. -/
theorem Uncancelled.advances (uncancelled : Uncancelled tasks token set here)
    {next : Runtime T E} (advances : Advances (· ≠ token) here next) :
    Uncancelled tasks token set next := by
  obtain ⟨live, running, completed⟩ := uncancelled
  have stillLive := advances.spares.trans live
  rcases advances.joinSet set with same | ⟨-, _, spawned, _, ended, isRunning, ends, isNext⟩
  · exact ⟨stillLive, same ▸ running, same ▸ completed⟩
  · obtain ⟨isToken, isTask⟩ := running spawned (by simp [isRunning])
    rw [isToken, live] at ends
    refine ⟨stillLive, ?_, ?_⟩ <;> rw [isNext]
    · exact fun still member => running still (JoinSet.mem_running isRunning member)
    · intro entry member
      rcases List.mem_append.mp member with old | isNew
      · exact completed entry old
      · rw [List.mem_singleton.mp isNew]
        exact ⟨spawned.task, isTask, ends⟩

/-- The other batch leaves the own tasks uncancelled. -/
theorem Uncancelled.relies (uncancelled : Uncancelled tasks token set here) (owned : own set)
    (relies : Relation.ReflTransGen (Elsewhere token own) here ready) :
    Uncancelled tasks token set ready := by
  induction relies with
  | refl => exact uncancelled
  | tail _ step ih =>
      cases step with
      | environment advances => exact ih.advances advances
      | foreign sets cancelled =>
          have same := sets set owned
          exact ⟨cancelled.trans ih.live, same ▸ ih.running, same ▸ ih.completed⟩

/-- The other batch leaves the token live. -/
theorem Elsewhere.live (relies : Relation.ReflTransGen (Elsewhere token own) here ready)
    (live : here.cancelled token = false) : ready.cancelled token = false := by
  induction relies with
  | refl => exact live
  | tail _ step ih =>
      cases step with
      | environment advances => exact advances.spares.trans ih
      | foreign _ cancelled => exact cancelled.trans ih

/-- Doing nothing stays on the own sets. -/
theorem OnOwnSets.refl (token : Nat) (own : Nat → Prop) (here : Runtime T E) :
    OnOwnSets token own here own here :=
  ⟨fun _ _ _ => rfl, rfl, Nat.le_refl _, fun _ owned => .inl owned⟩

/-- So does a change of an own set. -/
theorem OnOwnSets.put (token : Nat) (owned : own set) (here : Runtime T E) (joinSet : JoinSet T E) :
    OnOwnSets token own here own (here.put set joinSet) := by
  refine ⟨fun other _ foreign => ?_, rfl, Nat.le_refl _, fun _ owned => .inl owned⟩
  apply Runtime.put_joinSet_ne
  rintro rfl
  exact foreign owned

/-- A join keeps the tasks uncancelled, and a failure it finds is one a task comes to
with its token not cancelled. -/
theorem Uncancelled.joins (uncancelled : Uncancelled tasks token set here)
    {raw : Option (Except JoinError (TaskOutcome T E))} {after : JoinSet T E}
    (polled : (here.joinSet set).joinNext = some (raw, after)) :
    Uncancelled tasks token set (here.put set after) ∧ ∀ name e,
      raw = some (.ok (name, .error e)) →
        ∃ task, (name, task) ∈ tasks ∧ task false (.returned (.error e)) := by
  unfold JoinSet.joinNext at polled
  split at polled
  · next entry isNext =>
      obtain ⟨rfl, rfl⟩ := Prod.mk.inj (Option.some.inj polled)
      constructor
      · refine ⟨uncancelled.live, ?_, ?_⟩
        · rw [Runtime.put_joinSet_self]
          exact uncancelled.running
        · rw [Runtime.put_joinSet_self]
          exact uncancelled.completed
      · intro name e isFailure
        obtain ⟨task, isTask, ends⟩ := uncancelled.completed entry (List.mem_of_getElem? isNext)
        obtain ⟨entryName, ended⟩ := entry
        cases ended with
        | aborted error => simp [JoinSet.outcome] at isFailure
        | returned result =>
            simp only [JoinSet.outcome, Option.some.injEq, Except.ok.injEq, Prod.mk.injEq]
              at isFailure
            obtain ⟨rfl, rfl⟩ := isFailure
            exact ⟨task, isTask, ends⟩
  · split_ifs at polled
    obtain ⟨rfl, rfl⟩ := Prod.mk.inj (Option.some.inj polled)
    refine ⟨?_, nofun⟩
    rw [Runtime.put_self]
    exact uncancelled

/-- A join of no tasks is never pending. -/
theorem Uncancelled.not_pending (uncancelled : Uncancelled [] token set here) :
    (here.joinSet set).joinNext ≠ none := by
  have idle : (here.joinSet set).running = [] :=
    List.eq_nil_iff_forall_not_mem.mpr fun spawned member =>
      List.not_mem_nil (uncancelled.running spawned member).2
  unfold JoinSet.joinNext
  split
  · exact nofun
  · rw [idle]
    exact nofun

/-- What a batch keeps that cannot be failed while its token is not cancelled. -/
abbrev Keeping (tasks : List (String × TaskFn T E)) (token set : Nat) (own : Nat → Prop)
    (here : Runtime T E) : Prop :=
  own set ∧ Uncancelled tasks token set here

/-- Awaiting an outcome keeps the token and the tasks' errors. -/
theorem nextOutcome_guarded {timeout : Option Nat} (keeping : Keeping tasks token set own here)
    (patient : timeout = none ∨ tasks = []) :
    Guarded (sharing token)
      (fun outcome own next => Keeping tasks token set own next ∧ ∀ name e,
        outcome = .ok (some (name, .error e)) →
          ∃ task, (name, task) ∈ tasks ∧ task false (.returned (.error e)))
      (nextOutcome set token timeout) own since here := by
  obtain ⟨owned, uncancelled⟩ := keeping
  have found : ∀ {raw : Option (Except JoinError (TaskOutcome T E))} {name e},
      outcomeOf raw = .ok (some (name, .error e)) → raw = some (.ok (name, .error e)) := by
    rintro (_ | _ | _) name e isOutcome <;> simp_all [outcomeOf]
  cases timeout with
  | none =>
      rintro ready response next relies ⟨after, polled, rfl⟩
      obtain ⟨keeps, fails⟩ := (uncancelled.relies owned relies).joins polled
      exact ⟨own, .put token owned ready after, ⟨owned, keeps⟩, fun name e isFailure =>
        fails name e (found isFailure)⟩
  | some duration =>
      obtain rfl := patient.resolve_left nofun
      rintro ready response next relies effect
      have atReady := uncancelled.relies owned relies
      cases response with
      | none => exact absurd effect.2.1 atReady.not_pending
      | some raw =>
          obtain ⟨_, after, polled, rfl⟩ := effect
          obtain ⟨keeps, fails⟩ := atReady.joins polled
          exact ⟨own, .put token owned ready after, ⟨owned, keeps⟩, fun name e isFailure =>
            fails name e (found isFailure)⟩

/-- Looking at the token and the set keeps both. -/
theorem cancelledAndEmpty_guarded (keeping : Keeping tasks token set own here) :
    Guarded (sharing token) (fun _ own next => Keeping tasks token set own next)
      (cancelledAndEmpty set token) own since here := by
  obtain ⟨owned, uncancelled⟩ := keeping
  have asks : Guarded (sharing token) (fun _ own next => Keeping tasks token set own next)
      (isCancelled token) own since here := by
    apply Guarded.perform
    rintro ready response _ relies ⟨_, rfl⟩
    exact ⟨own, .refl .., owned, uncancelled.relies owned relies⟩
  apply Guarded.seq asks
  · rintro stops own' since here ⟨owned, uncancelled⟩
    cases stops with
    | false => exact ⟨owned, uncancelled⟩
    | true =>
        apply Guarded.perform
        rintro ready response _ relies ⟨_, rfl⟩
        exact ⟨own', .refl .., owned, uncancelled.relies owned relies⟩

/-- A fail-fast loop over tasks that do not fail, or time out, uncancelled. -/
theorem failFastLoop_guarded {timeout : Option Nat} (fuel : Nat)
    {results : AList fun _ : String => T} (keeping : Keeping tasks token set own here)
    (patient : timeout = none ∨ tasks = [])
    (succeed : ∀ entry ∈ tasks, ∀ e, ¬ entry.2 false (.returned (.error e))) :
    Guarded (sharing token) (fun _ _ _ => True) (failFastLoop set token timeout fuel results)
      own since here := by
  induction fuel generalizing own since here results with
  | zero => trivial
  | succ fuel ih =>
      apply Guarded.seq (nextOutcome_guarded keeping patient)
      rintro (e | _ | ⟨name, e | v⟩) own since here ⟨keeping, fails⟩
      · trivial
      · trivial
      · obtain ⟨task, isTask, ends⟩ := fails name e rfl
        exact absurd ends (succeed _ isTask e)
      · apply Guarded.seq (cancelledAndEmpty_guarded keeping)
        rintro (_ | _) own since here keeping
        · exact ih keeping
        · trivial

/-- A loop for partial results over tasks that do not time out. -/
theorem partialLoop_guarded {timeout : Option Nat} (fuel : Nat) {results : PartialResults T E}
    (keeping : Keeping tasks token set own here) (patient : timeout = none ∨ tasks = []) :
    Guarded (sharing token) (fun _ _ _ => True) (partialLoop set token timeout fuel results)
      own since here := by
  induction fuel generalizing own since here results with
  | zero => trivial
  | succ fuel ih =>
      apply Guarded.seq (nextOutcome_guarded keeping patient)
      rintro (e | _ | _) own since here ⟨keeping, _⟩
      · trivial
      · trivial
      · exact ih keeping

/-- Spawning keeps both. -/
theorem spawnAll_guarded (rest : List (String × TaskFn T E))
    (keeping : Keeping tasks token set own here) (listed : ∀ entry ∈ rest, entry ∈ tasks) :
    Guarded (sharing token) (fun _ own next => Keeping tasks token set own next)
      (spawnAll set token rest) own since here := by
  induction rest generalizing own since here with
  | nil => exact keeping
  | cons entry rest ih =>
      obtain ⟨name, task⟩ := entry
      obtain ⟨owned, uncancelled⟩ := keeping
      obtain ⟨first, later⟩ := List.forall_mem_cons.mp listed
      rintro ready _ next relies rfl
      have atReady := uncancelled.relies owned relies
      refine ⟨own, .put token owned ready _, ih ⟨owned, atReady.live, ?_, ?_⟩ later⟩
      · rw [Runtime.put_joinSet_self]
        intro spawned member
        rcases List.mem_append.mp member with old | isNew
        · exact atReady.running spawned old
        · rw [List.mem_singleton.mp isNew]
          exact ⟨rfl, first⟩
      · rw [Runtime.put_joinSet_self]
        exact atReady.completed

/-- The tasks are spawned into a set of the batch's own. -/
theorem spawnTasks_guarded (map : TaskMap T E) (live : here.cancelled token = false) :
    Guarded (sharing token) (fun set own next => Keeping map.entries token set own next)
      (spawnTasks map token) own since here := by
  have makes : Guarded (sharing token) (fun set own next => Keeping map.entries token set own next)
      newSet own since here := by
    apply Guarded.perform
    rintro ready set next relies ⟨rfl, rfl⟩
    have stillLive : ready.cancelled token = false := Elsewhere.live relies live
    refine ⟨fun set => own set ∨ set = ready.sets, ?_, .inr rfl, stillLive, ?_, ?_⟩
    · refine ⟨fun set old _ => Runtime.put_joinSet_ne _ _ old.ne, rfl, Nat.le_succ _, ?_⟩
      rintro set (owned | rfl)
      · exact .inl owned
      · exact .inr ⟨Nat.le_refl _, Nat.lt_succ_self _⟩
    · simp
    · simp
  apply Guarded.seq makes
  intro set own since here keeping
  apply Guarded.seq (spawnAll_guarded map.entries keeping fun _ => id)
  exact fun _ own since here keeping => keeping

/-- A batch that cannot signal never cancels its token. -/
theorem runWith_guarded (executor : AnyExecutor T E) (silent : ¬ executor.CanSignal)
    (live : here.cancelled token = false) :
    Guarded (sharing token) (fun _ _ _ => True) (executor.runWith token) own since here := by
  have patient_of : ∀ {timeout : Option Nat} {map : TaskMap T E},
      ¬ (timeout.isSome ∧ map.entries ≠ []) → timeout = none ∨ map.entries = [] := by
    intro timeout map impatient
    cases timeout with
    | none => exact .inl rfl
    | some duration => exact .inr (by simpa using impatient)
  cases executor with
  | failFast executor =>
      obtain ⟨impatient, noFailure⟩ := not_or.mp silent
      apply Guarded.seq (spawnTasks_guarded executor.tasks live)
      intro set own since here keeping
      refine failFastLoop_guarded _ keeping (patient_of impatient) fun entry member e fails => ?_
      exact noFailure ⟨entry, member, e, fails⟩
  | withPartialResults executor =>
      apply Guarded.seq (spawnTasks_guarded executor.tasks live)
      intro set own since here keeping
      exact partialLoop_guarded _ keeping (patient_of silent)

/-- Two batches that cannot signal leave the token as it was. -/
theorem leavesToken_of_silent {first second : AnyExecutor T E} (silent : ¬ first.CanSignal)
    (alsoSilent : ¬ second.CanSignal) : LeavesToken token first second := by
  rintro start pair ⟨live, steps⟩
  have guarded : Pair.BothGuarded (sharing token)
      (Pair.start start (first.runWith token) (second.runWith token)) := by
    refine ⟨fun _ => False, fun _ => False, ⟨live, fun _ => False.elim, ?_⟩,
      runWith_guarded first silent live, runWith_guarded second alsoSilent live⟩
    rintro set (owned | owned) <;> exact owned.elim
  obtain ⟨_, _, apart, _⟩ := guarded.steps steps
  exact apart.live

/-- Time may pass. -/
theorem rests_ticks {cancels : Nat → Prop} (here : Runtime T E) (ticks : Nat) :
    Relation.ReflTransGen (Advances cancels) here { here with now := here.now + ticks } := by
  induction ticks with
  | zero => exact .refl
  | succ ticks ih => exact ih.tail .tick

/-- Every task is spawned, and runs. -/
theorem spawnAll_reaches (cancels : Nat → Prop) (set token : Nat)
    (rest : List (String × TaskFn T E)) (here : Runtime T E) :
    ∃ events final, Reaches (runtime (Advances cancels)) (spawnAll set token rest) here events
        (.done ()) final ∧ final.cancelled = here.cancelled ∧
      final.joinSet set = { here.joinSet set with
        running := (here.joinSet set).running ++
          rest.map fun entry => { name := entry.1, task := entry.2, token } } ∧
      ∀ entry ∈ rest, ⟨.spawn set { name := entry.1, task := entry.2, token }, ()⟩ ∈ events := by
  induction rest generalizing here with
  | nil => exact ⟨[], here, .refl, rfl, by simp, nofun⟩
  | cons entry rest ih =>
      obtain ⟨name, task⟩ := entry
      let next := here.put set ((here.joinSet set).spawn { name, task, token })
      obtain ⟨events, final, reaches, sameTokens, inSet, spawned⟩ := ih next
      have answer : (runtime (Advances cancels)).Answers here (.spawn set { name, task, token })
          () next := ⟨here, .refl, rfl⟩
      refine ⟨_, final, .step answer reaches, sameTokens, ?_, ?_⟩
      · rw [inSet, Runtime.put_joinSet_self]
        simp [JoinSet.spawn]
      · refine List.forall_mem_cons.mpr ⟨List.mem_cons_self, fun entry member => ?_⟩
        exact List.mem_cons_of_mem _ (spawned entry member)

/-- Spawning can run alone, and leaves the tokens as they are. -/
theorem spawnTasks_reaches (cancels : Nat → Prop) (map : TaskMap T E) (token : Nat)
    (here : Runtime T E) :
    ∃ events final, Reaches (runtime (Advances cancels)) (spawnTasks map token) here events
        (.done here.sets) final ∧ final.cancelled = here.cancelled ∧
      final.joinSet here.sets = {
        running := map.entries.map fun entry => { name := entry.1, task := entry.2, token } } ∧
      ∀ entry ∈ map.entries,
        ⟨.spawn here.sets { name := entry.1, task := entry.2, token }, ()⟩ ∈ events := by
  let made : Runtime T E := { here.put here.sets {} with sets := here.sets + 1 }
  obtain ⟨events, final, reaches, sameTokens, inSet, spawned⟩ :=
    spawnAll_reaches cancels here.sets token map.entries made
  have answer : (runtime (Advances cancels)).Answers here .newSet here.sets made :=
    ⟨here, .refl, rfl, rfl⟩
  refine ⟨_, final, .step answer (reaches.bind fun _ => .done here.sets), sameTokens, ?_, ?_⟩
  · have isNew : made.joinSet here.sets = {} := Runtime.put_joinSet_self ..
    rw [inSet, isNew]
    rfl
  · exact fun entry member => List.mem_cons_of_mem _ (spawned entry member)

/-- While a join is pending its timeout may elapse, and then the token is cancelled. -/
theorem nextOutcome_may_time_out (pending : (here.joinSet set).joinNext = none) (duration : Nat) :
    ∃ events remainder final, Reaches (batches token).world
        (nextOutcome set token (some duration)) here events remainder final ∧
      final.cancelled token = true := by
  let late : Runtime T E := { here with now := here.now + duration }
  have elapses : (batches token).world.Answers here (.joinNextTimeout set duration) none late :=
    ⟨late, rests_ticks here duration, rfl, pending, rfl⟩
  have cancels : (batches token).world.Answers late (.cancel token) () (late.cancel token) :=
    ⟨late, .refl, rfl⟩
  refine ⟨_, _, late.cancel token, .step elapses (.step cancels .refl), ?_⟩
  simp [Runtime.cancel]

/-- Once a poll is ready, and no time has passed, it may be the next outcome. -/
theorem nextOutcome_may_poll (cancels : Nat → Prop) (timeout : Option Nat) (token : Nat)
    (rests : Relation.ReflTransGen (Advances cancels) here ready) (sameTime : ready.now = here.now)
    {raw : Option (Except JoinError (TaskOutcome T E))} {after : JoinSet T E}
    (polled : (ready.joinSet set).joinNext = some (raw, after)) :
    ∃ event, Returns (runtime (Advances cancels)) (nextOutcome set token timeout) here [event]
      (outcomeOf raw) (ready.put set after) := by
  cases timeout with
  | none =>
      have answer : (runtime (Advances cancels)).Answers here (.joinNext set) raw
          (ready.put set after) := ⟨ready, rests, after, polled, rfl⟩
      exact ⟨_, .step answer .refl⟩
  | some duration =>
      have inTime : ready.now ≤ here.now + duration := sameTime ▸ Nat.le_add_right ..
      have answer : (runtime (Advances cancels)).Answers here (.joinNextTimeout set duration)
          (some raw) (ready.put set after) := ⟨ready, rests, inTime, after, polled, rfl⟩
      exact ⟨_, .step answer .refl⟩

/-- Any end that a running task may come to may be the one that is joined. -/
theorem nextOutcome_may_join (cancels : Nat → Prop) {spawned : Spawned T E} {ended : TaskEnd T E}
    (timeout : Option Nat) (token : Nat) (member : spawned ∈ (here.joinSet set).running)
    (noneYet : (here.joinSet set).completed = []) (noneJoined : (here.joinSet set).joined = 0)
    (ends : spawned.task (here.cancelled spawned.token) ended) :
    ∃ events final, Returns (runtime (Advances cancels)) (nextOutcome set token timeout) here
        events (outcomeOf (some (JoinSet.outcome (spawned.name, ended)))) final ∧
      final.cancelled = here.cancelled ∧
      (final.joinSet set).completed = [(spawned.name, ended)] := by
  obtain ⟨before, after, isRunning⟩ := List.append_of_mem member
  have finishes : Advances cancels here _ := .finish isRunning ends
  generalize isReady : here.put set _ = ready at finishes
  have inSet : ready.joinSet set = { here.joinSet set with
      running := before ++ after
      completed := [(spawned.name, ended)] } := by
    rw [← isReady, Runtime.put_joinSet_self, noneYet]
    rfl
  have isNext : (ready.joinSet set).completed[(ready.joinSet set).joined]? =
      some (spawned.name, ended) := by
    rw [inSet]
    simp [noneJoined]
  have sameTime : ready.now = here.now := by
    rw [← isReady]
    rfl
  obtain ⟨event, returns⟩ := nextOutcome_may_poll cancels timeout token (.single finishes) sameTime
    (JoinSet.joinNext_of_next isNext)
  refine ⟨[event], _, returns, ?_, ?_⟩
  · rw [Runtime.put_cancelled, ← isReady, Runtime.put_cancelled]
  · rw [Runtime.put_joinSet_self, inSet]

/-- Alone, a batch that can signal may cancel its token. -/
theorem runWith_may_cancel (executor : AnyExecutor T E) (canSignal : executor.CanSignal)
    (token : Nat) :
    ∃ events remainder final, Reaches (batches token).world (executor.runWith token) {} events
      remainder final ∧ final.cancelled token = true := by
  have impatient : ∀ {map : TaskMap T E} {timeout : Option Nat} {final : Runtime T E},
      timeout.isSome ∧ map.entries ≠ [] → final.joinSet 0 = {
        running := map.entries.map fun entry => { name := entry.1, task := entry.2, token } } →
      ∃ events remainder last, Reaches (batches token).world
        (nextOutcome 0 token timeout) final events remainder last ∧
          last.cancelled token = true := by
    rintro map timeout final ⟨isSome, nonempty⟩ inSet
    obtain ⟨duration, rfl⟩ := Option.isSome_iff_exists.mp isSome
    apply nextOutcome_may_time_out
    rw [inSet]
    simpa [JoinSet.joinNext] using nonempty
  cases executor with
  | failFast executor =>
      obtain ⟨events, final, spawns, sameTokens, inSet, _⟩ :=
        spawnTasks_reaches (· ≠ token) executor.tasks token {}
      rcases canSignal with timesOut | ⟨⟨name, task⟩, member, e, ends⟩
      · obtain ⟨later, remainder, last, reaches, cancelled⟩ := impatient timesOut inSet
        exact ⟨_, _, last, (spawns.bind _).trans (reaches.bind _), cancelled⟩
      · have spawned : ({ name, task, token } : Spawned T E) ∈ (final.joinSet 0).running := by
          rw [inSet]
          exact List.mem_map.mpr ⟨_, member, rfl⟩
        obtain ⟨later, last, reaches, _⟩ := nextOutcome_may_join (· ≠ token)
          executor.timeout token spawned (by rw [inSet]) (by rw [inSet])
          (by rw [sameTokens]; exact ends)
        have cancels : (batches token).world.Answers last (.cancel token) () (last.cancel token) :=
          ⟨last, .refl, rfl⟩
        refine ⟨_, _, last.cancel token, (spawns.bind _).trans ((reaches.bind _).trans
          (.step cancels .refl)), ?_⟩
        simp [Runtime.cancel]
  | withPartialResults executor =>
      obtain ⟨events, final, spawns, _, inSet, _⟩ :=
        spawnTasks_reaches (· ≠ token) executor.tasks token {}
      obtain ⟨later, remainder, last, reaches, cancelled⟩ := impatient canSignal inSet
      exact ⟨_, _, last, (spawns.bind _).trans (reaches.bind _), cancelled⟩

/-- Isolation is mutual. -/
theorem Isolated.swap {first second : AnyExecutor T E} (isolated : Isolated token first second) :
    Isolated token second first := by
  rintro start pair ⟨live, steps⟩ cancelled
  exact (isolated start pair.swap ⟨live, steps.swap⟩ cancelled).symm

/-- So is leaving the token. -/
theorem LeavesToken.swap {first second : AnyExecutor T E}
    (leaves : LeavesToken token first second) : LeavesToken token second first := by
  rintro start pair ⟨live, steps⟩
  exact leaves start pair.swap ⟨live, steps.swap⟩

/-- A batch that can signal cancels the token before the other batch has started. -/
theorem canSignal_interleaves {first : AnyExecutor T E} (canSignal : first.CanSignal)
    (second : AnyExecutor T E) (token : Nat) :
    ∃ pair, Interleaves token first second {} pair ∧ pair.state.cancelled token = true ∧
      pair.secondEvents = [] := by
  obtain ⟨events, remainder, final, reaches, cancelled⟩ := runWith_may_cancel first canSignal token
  exact ⟨_, ⟨rfl, Pair.steps_of_reaches reaches _ [] []⟩, cancelled, rfl⟩

/-- An executor that can signal is not isolated from. -/
theorem not_isolated {first second : AnyExecutor T E} (canSignal : first.CanSignal) :
    ¬ Isolated token first second := by
  intro isolated
  obtain ⟨pair, interleaves, cancelled, idle⟩ := canSignal_interleaves canSignal second token
  obtain ⟨_, event, member, _⟩ := isolated {} pair interleaves cancelled
  rw [idle] at member
  cases member

/-- It does not leave the token. -/
theorem not_leavesToken {first second : AnyExecutor T E} (canSignal : first.CanSignal) :
    ¬ LeavesToken token first second := by
  intro leaves
  obtain ⟨pair, interleaves, cancelled, _⟩ := canSignal_interleaves canSignal second token
  cases cancelled.symm.trans (leaves {} pair interleaves)

/-- Batches with clones of one token are isolated, and leave the token as it was, exactly
if neither of them can signal. -/
theorem sharedToken_isolated_iff (token : Nat) (first second : AnyExecutor T E) :
    (Isolated token first second ↔ ¬ first.CanSignal ∧ ¬ second.CanSignal) ∧
    (LeavesToken token first second ↔ ¬ first.CanSignal ∧ ¬ second.CanSignal) := by
  refine ⟨⟨fun isolated => ⟨?_, ?_⟩, ?_⟩, ⟨fun leaves => ⟨?_, ?_⟩, ?_⟩⟩
  · exact fun canSignal => not_isolated canSignal isolated
  · exact fun canSignal => not_isolated canSignal isolated.swap
  · rintro ⟨silent, alsoSilent⟩ start pair interleaves cancelled
    cases cancelled.symm.trans (leavesToken_of_silent silent alsoSilent start pair interleaves)
  · exact fun canSignal => not_leavesToken canSignal leaves
  · exact fun canSignal => not_leavesToken canSignal leaves.swap
  · rintro ⟨silent, alsoSilent⟩
    exact leavesToken_of_silent silent alsoSilent

/-- A task that fails, in a batch that shares its token with an empty one. -/
theorem failingTask_cancels_other :
    ¬ Isolated 0
      (.failFast (executeConcurrently (TaskMap.new.insert "bad" (fun _ ended =>
        ended = .returned (.error "boom")) : TaskMap Nat String)))
      (.failFast (executeConcurrently TaskMap.new)) := by
  apply not_isolated
  exact .inr ⟨_, (OrderedMap.mem_insert _ _ _ _).mpr (.inl rfl), "boom", rfl⟩

end AltairRs.Concurrent
