import Mathlib.Data.List.Nodup
import AltairRs.Concurrent.Runtime
import AltairRs.Effect.Total

/-!
# Tasks in flight

`InFlight` is the invariant of a set in an environment in which nobody cancels:
its tasks are running, or have completed in some order with their own results,
and a front of those has been consumed. The environment keeps it, and a join
finds the next result or, at the end, nothing.
-/

namespace AltairRs.Concurrent

open Effect

variable {T E : Type}

/-- With its token not cancelled, the task ends with this result and no other. -/
def TaskFn.Own (task : TaskFn T E) (result : Except E T) : Prop :=
  ∀ ended, task false ended ↔ ended = .returned result

/-- A task has one result of its own. -/
theorem TaskFn.Own.unique {task : TaskFn T E} {result other : Except E T}
    (own : task.Own result) (same : task.Own other) : result = other := by
  have ended := (own (.returned other)).mp ((same _).mpr rfl)
  cases ended
  rfl

/-- An environment in which nobody cancels. -/
abbrev Quiet : Runtime T E → Runtime T E → Prop := Advances fun _ => False

/-- Time and completions, between two calls. -/
abbrev Rests : Runtime T E → Runtime T E → Prop := Relation.ReflTransGen Quiet

/-- Nothing that completed is forgotten. -/
theorem Advances.completed {cancels : Nat → Prop} {here next : Runtime T E}
    (advances : Advances cancels here next) (set : Nat) :
    (here.joinSet set).completed <+: (next.joinSet set).completed := by
  rcases advances.joinSet set with same | ⟨-, _, _, _, _, -, -, isNext⟩
  · exact (congrArg JoinSet.completed same) ▸ List.prefix_refl _
  · exact (congrArg JoinSet.completed isNext) ▸ List.prefix_append _ _

/-- What is completed stays, and more is completed behind it. -/
theorem Rests.completed {here ready : Runtime T E} (rests : Rests here ready) (set : Nat) :
    (here.joinSet set).completed <+: (ready.joinSet set).completed := by
  induction rests with
  | refl => exact List.prefix_refl _
  | tail _ advances ih => exact ih.trans (advances.completed set)

/-- Nobody cancels, and nobody else makes sets. -/
theorem Rests.unchanged {here ready : Runtime T E} (rests : Rests here ready) :
    ready.cancelled = here.cancelled ∧ ready.sets = here.sets := by
  induction rests with
  | refl => exact ⟨rfl, rfl⟩
  | tail _ advances ih =>
      obtain ⟨sameTokens, sameSets⟩ := ih
      refine ⟨?_, advances.sets.trans sameSets⟩
      ext token
      rcases advances.token token with same | ⟨caller, -⟩
      · rw [same, sameTokens]
      · exact caller.elim

/-- The spawned tasks: those completed came to their own results, and the first of
them have been consumed. -/
structure InFlight (tasks : List (String × TaskFn T E)) (token : Nat)
    (consumed : List (String × TaskEnd T E)) (cancelled : Nat → Bool) (set : JoinSet T E) :
    Prop where
  live : cancelled token = false
  names : (set.completed.map Prod.fst ++ set.running.map Spawned.name).Perm (tasks.map Prod.fst)
  running : ∀ spawned ∈ set.running, spawned.token = token ∧ (spawned.name, spawned.task) ∈ tasks
  completed : ∀ entry ∈ set.completed, ∃ task result, (entry.1, task) ∈ tasks ∧
    task.Own result ∧ entry.2 = .returned result
  isFront : consumed <+: set.completed
  joined : set.joined = consumed.length

variable {tasks : List (String × TaskFn T E)} {set token : Nat}
  {consumed : List (String × TaskEnd T E)}

/-- The invariant of the batch in a set. -/
abbrev InFlightAt (tasks : List (String × TaskFn T E)) (set token : Nat)
    (consumed : List (String × TaskEnd T E)) (here : Runtime T E) : Prop :=
  InFlight tasks token consumed here.cancelled (here.joinSet set)

/-- A completion keeps the invariant. -/
theorem InFlight.completes {cancelled : Nat → Bool} {before after : JoinSet T E}
    (inFlight : InFlight tasks token consumed cancelled before)
    (owned : ∀ entry ∈ tasks, ∃ result, entry.2.Own result)
    (completes : before.Completes cancelled after) :
    InFlight tasks token consumed cancelled after := by
  obtain ⟨_, spawned, _, ended, isRunning, ends, rfl⟩ := completes
  have member : spawned ∈ before.running := by simp [isRunning]
  obtain ⟨isToken, isTask⟩ := inFlight.running spawned member
  obtain ⟨result, own⟩ := owned _ isTask
  rw [isToken, inFlight.live] at ends
  refine ⟨inFlight.live, ?_, fun other isOther => ?_, fun entry isEntry => ?_, ?_, inFlight.joined⟩
  · exact (JoinSet.finish_names isRunning ended).trans inFlight.names
  · exact inFlight.running other (JoinSet.mem_running isRunning isOther)
  · rcases List.mem_append.mp isEntry with old | isNew
    · exact inFlight.completed entry old
    · rw [List.mem_singleton.mp isNew]
      exact ⟨spawned.task, result, isTask, own, (own ended).mp ends⟩
  · exact inFlight.isFront.trans (List.prefix_append _ _)

/-- The environment keeps the invariant. -/
theorem InFlight.rests {here ready : Runtime T E}
    (inFlight : InFlightAt tasks set token consumed here)
    (owned : ∀ entry ∈ tasks, ∃ result, entry.2.Own result) (rests : Rests here ready) :
    InFlightAt tasks set token consumed ready := by
  induction rests with
  | refl => exact inFlight
  | @tail middle next _ advances ih =>
      have sameTokens : next.cancelled = middle.cancelled := (Rests.unchanged (.single advances)).1
      rw [InFlightAt, sameTokens]
      rcases advances.joinSet set with same | ⟨-, completes⟩
      · rw [same]
        exact ih
      · exact ih.completes owned completes

/-- One call, from what it does wherever the environment lets it be answered. -/
theorem perform_settles {here : Runtime T E} (op : RuntimeOp T E)
    {Post : (runtimeSignature T E).Response op → Runtime T E → Prop}
    (progress : ∃ ready response next, Rests here ready ∧ op.Effect here ready response next)
    (step : ∀ ready response next, Rests here ready → op.Effect here ready response next →
      Post response next) :
    Settles (runtime Quiet) Post (Program.perform (runtimeSignature T E) op) here := by
  obtain ⟨ready, response, next, rests, effect⟩ := progress
  refine ⟨⟨response, next, ready, rests, effect⟩, ?_⟩
  rintro response next ⟨ready, rests, effect⟩
  exact step ready response next rests effect

/-- What a join finds: everything consumed and nothing running, or the own result
of the task that completed next. -/
def Joins (tasks : List (String × TaskFn T E)) (set token : Nat)
    (consumed : List (String × TaskEnd T E))
    (raw : Option (Except JoinError (TaskOutcome T E))) (next : Runtime T E) : Prop :=
  raw = none ∧ InFlightAt tasks set token consumed next ∧
      (next.joinSet set).running = [] ∧ (next.joinSet set).completed = consumed ∨
    ∃ name task result, raw = some (.ok (name, result)) ∧ (name, task) ∈ tasks ∧
      task.Own result ∧ InFlightAt tasks set token (consumed ++ [(name, .returned result)]) next

/-- A poll that is ready joins. -/
theorem InFlight.joins {here : Runtime T E} (inFlight : InFlightAt tasks set token consumed here)
    {raw : Option (Except JoinError (TaskOutcome T E))} {after : JoinSet T E}
    (ready : (here.joinSet set).joinNext = some (raw, after)) :
    Joins tasks set token consumed raw (here.put set after) := by
  obtain ⟨rest, isCompleted⟩ := inFlight.isFront
  rw [JoinSet.joinNext_of_front isCompleted inFlight.joined] at ready
  cases rest with
  | nil =>
      rw [List.append_nil] at isCompleted
      by_cases idle : (here.joinSet set).running.isEmpty
      · simp only [idle, if_true, Option.some.injEq, Prod.mk.injEq] at ready
        obtain ⟨rfl, rfl⟩ := ready
        rw [Runtime.put_self]
        exact .inl ⟨rfl, inFlight, List.isEmpty_iff.mp idle, isCompleted.symm⟩
      · simp [idle] at ready
  | cons entry later =>
      obtain ⟨rfl, rfl⟩ := Prod.mk.inj (Option.some.inj ready)
      have member : entry ∈ (here.joinSet set).completed := by simp [← isCompleted]
      obtain ⟨task, result, isTask, own, isEnded⟩ := inFlight.completed entry member
      obtain ⟨name, ended⟩ := entry
      obtain rfl : ended = .returned result := isEnded
      refine .inr ⟨name, task, result, rfl, isTask, own, ?_⟩
      rw [InFlightAt, Runtime.put_joinSet_self, Runtime.put_cancelled]
      refine ⟨inFlight.live, inFlight.names, inFlight.running, inFlight.completed, ?_, ?_⟩
      · exact ⟨later, by simp [← isCompleted]⟩
      · simp [inFlight.joined]

/-- A join always comes to an end: a task that runs may complete. -/
theorem InFlight.joinable {here : Runtime T E}
    (inFlight : InFlightAt tasks set token consumed here)
    (owned : ∀ entry ∈ tasks, ∃ result, entry.2.Own result) :
    ∃ ready raw after, Rests here ready ∧ (ready.joinSet set).joinNext = some (raw, after) := by
  cases isNext : (here.joinSet set).completed[(here.joinSet set).joined]? with
  | some entry =>
      exact ⟨here, _, _, .refl, JoinSet.joinNext_of_next isNext⟩
  | none =>
      cases isRunning : (here.joinSet set).running with
      | nil =>
          refine ⟨here, none, here.joinSet set, .refl, ?_⟩
          simp [JoinSet.joinNext, isNext, isRunning]
      | cons spawned others =>
          obtain ⟨isToken, isTask⟩ := inFlight.running spawned (by simp [isRunning])
          obtain ⟨result, own⟩ := owned _ isTask
          have ends : spawned.task (here.cancelled spawned.token) (.returned result) := by
            rw [isToken, inFlight.live]
            exact (own _).mpr rfl
          have split : (here.joinSet set).running = [] ++ spawned :: others := isRunning
          have bounded : (here.joinSet set).joined ≤ (here.joinSet set).completed.length := by
            rw [inFlight.joined]
            exact inFlight.isFront.length_le
          have atEnd := Nat.le_antisymm bounded (List.getElem?_eq_none_iff.mp isNext)
          let finished : JoinSet T E :=
            { here.joinSet set with
              running := [] ++ others
              completed := (here.joinSet set).completed ++ [(spawned.name, .returned result)] }
          have isLast : finished.completed[finished.joined]? =
              some (spawned.name, .returned result) := by
            simp only [finished]
            rw [atEnd, List.getElem?_concat_length]
          refine ⟨here.put set finished, some (.ok (spawned.name, result)),
            { finished with joined := finished.joined + 1 }, .single (.finish split ends), ?_⟩
          rw [Runtime.put_joinSet_self]
          exact JoinSet.joinNext_of_next isLast

/-- The tasks may complete in any order. -/
theorem InFlight.any_order {here : Runtime T E} (order : List (Spawned T E))
    (inFlight : InFlightAt tasks set token consumed here)
    (owned : ∀ entry ∈ tasks, ∃ result, entry.2.Own result)
    (perm : (here.joinSet set).running.Perm order) :
    ∃ ready, Rests here ready ∧ (ready.joinSet set).running = [] ∧
      (ready.joinSet set).completed.map Prod.fst =
        (here.joinSet set).completed.map Prod.fst ++ order.map Spawned.name := by
  induction order generalizing here with
  | nil => exact ⟨here, .refl, perm.eq_nil, by simp⟩
  | cons spawned order ih =>
      have member : spawned ∈ (here.joinSet set).running := perm.mem_iff.mpr List.mem_cons_self
      obtain ⟨before, after, isRunning⟩ := List.append_of_mem member
      obtain ⟨isToken, isTask⟩ := inFlight.running spawned member
      obtain ⟨result, own⟩ := owned _ isTask
      have ends : spawned.task (here.cancelled spawned.token) (.returned result) := by
        rw [isToken, inFlight.live]
        exact (own _).mpr rfl
      have finishes : Rests here _ := .single (.finish isRunning ends)
      rw [isRunning] at perm
      have others : (before ++ after).Perm order := (List.perm_middle.symm.trans perm).cons_inv
      obtain ⟨ready, rests, idle, names⟩ :=
        ih (inFlight.rests owned finishes) (by simpa using others)
      refine ⟨ready, finishes.trans rests, idle, ?_⟩
      rw [names, Runtime.put_joinSet_self]
      simp

/-- Spawning puts one more task in flight. -/
theorem InFlight.spawn {cancelled : Nat → Bool} {joinSet : JoinSet T E}
    (inFlight : InFlight tasks token consumed cancelled joinSet) (name : String)
    (task : TaskFn T E) :
    InFlight (tasks ++ [(name, task)]) token consumed cancelled
      (joinSet.spawn { name, task, token }) := by
  refine ⟨inFlight.live, ?_, fun spawned member => ?_, fun entry member => ?_, inFlight.isFront,
    inFlight.joined⟩
  · rw [List.map_append]
    exact JoinSet.spawn_names _ inFlight.names
  · rcases List.mem_append.mp member with old | isNew
    · obtain ⟨isToken, isTask⟩ := inFlight.running spawned old
      exact ⟨isToken, List.mem_append_left _ isTask⟩
    · rw [List.mem_singleton.mp isNew]
      exact ⟨rfl, List.mem_append_right _ List.mem_cons_self⟩
  · obtain ⟨task, result, isTask, ended⟩ := inFlight.completed entry member
    exact ⟨task, result, List.mem_append_left _ isTask, ended⟩

/-- No more is consumed than was spawned. -/
theorem InFlight.consumed_le {cancelled : Nat → Bool} {joinSet : JoinSet T E}
    (inFlight : InFlight tasks token consumed cancelled joinSet) :
    consumed.length ≤ tasks.length := by
  have whole := inFlight.names.length_eq
  have front := inFlight.isFront.length_le
  simp only [List.length_append, List.length_map] at whole
  omega

/-- What is consumed next has a new name. -/
theorem InFlight.fresh {cancelled : Nat → Bool} {joinSet : JoinSet T E} {name : String}
    {ended : TaskEnd T E}
    (inFlight : InFlight tasks token (consumed ++ [(name, ended)]) cancelled joinSet)
    (distinct : (tasks.map Prod.fst).Nodup) : ∀ entry ∈ consumed, entry.1 ≠ name := by
  have names := (inFlight.names.nodup_iff.mpr distinct).of_append_left
  have front := names.sublist (inFlight.isFront.sublist.map Prod.fst)
  rw [List.map_append, List.nodup_append] at front
  intro entry member
  exact front.2.2 entry.1 (List.mem_map_of_mem member) name (by simp)

/-- When everything has been consumed, every task has been, with its own result. -/
theorem InFlight.settled {cancelled : Nat → Bool} {joinSet : JoinSet T E}
    (inFlight : InFlight tasks token consumed cancelled joinSet) (idle : joinSet.running = [])
    (isAll : joinSet.completed = consumed) (distinct : (tasks.map Prod.fst).Nodup)
    (name : String) (result : Except E T) :
    (name, .returned result) ∈ consumed ↔ ∃ task, (name, task) ∈ tasks ∧ task.Own result := by
  constructor
  · intro member
    obtain ⟨task, other, isTask, own, isEnded⟩ := inFlight.completed _ (isAll ▸ member)
    cases isEnded
    exact ⟨task, isTask, own⟩
  · rintro ⟨task, isTask, own⟩
    have names := inFlight.names
    rw [idle, isAll, List.map_nil, List.append_nil] at names
    obtain ⟨⟨_, ended⟩, member, rfl⟩ :=
      List.mem_map.mp (names.mem_iff.mpr (List.mem_map_of_mem (f := Prod.fst) isTask))
    obtain ⟨other, otherResult, isOther, otherOwn, isEnded⟩ := inFlight.completed _ (isAll ▸ member)
    have sameEntry := List.inj_on_of_nodup_map distinct isTask isOther rfl
    obtain rfl : task = other := congrArg Prod.snd sameEntry
    rw [own.unique otherOwn, ← isEnded]
    exact member

end AltairRs.Concurrent
