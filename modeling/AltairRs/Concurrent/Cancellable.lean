import AltairRs.Concurrent.SharedToken
import AltairRs.Effect.Recorded

/-!
# A batch whose token may be cancelled

The caller may cancel the token of a batch at any moment. `Cancellable` is the
invariant of the spawned tasks: a task ends as the token then tells it to, so one
that completes after the token was cancelled has seen it cancelled (`Follows`). From
it, how either executor is left.
-/

namespace AltairRs.Concurrent

open Effect Keyed

variable {T E : Type}

/-- The calls of an executor, with a caller that may cancel these tokens. -/
def calls (cancels : Nat → Prop) : Service (runtimeSignature T E) (Runtime T E) where
  Environment := Advances cancels
  Answers start ready op response next := op.Effect start ready response next

/-- Alone with the environment they run in the runtime. -/
theorem calls_world (cancels : Nat → Prop) :
    (calls (T := T) (E := E) cancels).world = runtime (Advances cancels) := rfl

namespace AnyExecutor

def cancellation : AnyExecutor T E → Option Nat
  | .failFast executor => executor.cancellation
  | .withPartialResults executor => executor.cancellation

/-- Await the executor. -/
def run : (executor : AnyExecutor T E) → RuntimeProgram T E (Option (Result E executor.Output))
  | .failFast executor => runFailFast (executor.tasks.entries.length + 1) executor
  | .withPartialResults executor => runPartial (executor.tasks.entries.length + 1) executor

/-- An executor goes on with its token, as one that was given that token. -/
theorem run_eq (executor : AnyExecutor T E) :
    executor.run = tokenOrDefault executor.cancellation >>= executor.runWith := by
  cases executor <;> rfl

end AnyExecutor

/-- Of the tasks that a run has spawned with a token, one has not completed. -/
def PendingWith (events : List (Event (runtimeSignature T E))) (token : Nat)
    (moment : Runtime T E) : Prop :=
  ∃ set spawned, ⟨.spawn set spawned, ()⟩ ∈ events ∧ spawned.token = token ∧
    spawned.name ∉ (moment.joinSet set).completed.map Prod.fst

/-- A set is empty when nothing runs in it and everything is joined. -/
theorem JoinSet.isEmpty_iff {set : JoinSet T E} :
    set.isEmpty = true ↔ set.running = [] ∧ set.completed.length ≤ set.joined := by
  simp [JoinSet.isEmpty]

variable {cancels : Nat → Prop} {tasks : List (String × TaskFn T E)} {token set : Nat}

/-- The spawned tasks of a batch: those that run have its token, those that have
completed ended as the token told them to, and those joined ended with a result. -/
structure Cancellable (cancels : Nat → Prop) (tasks : List (String × TaskFn T E))
    (token set : Nat) (here : Runtime T E) : Prop where
  live : cancels token ∨ here.cancelled token = false
  names : ((here.joinSet set).completed.map Prod.fst ++
    (here.joinSet set).running.map Spawned.name).Perm (tasks.map Prod.fst)
  running : ∀ spawned ∈ (here.joinSet set).running,
    spawned.token = token ∧ (spawned.name, spawned.task) ∈ tasks
  completed : ∀ entry ∈ (here.joinSet set).completed, ∃ task, (entry.1, task) ∈ tasks ∧
    (task false entry.2 ∨ task true entry.2 ∧ here.cancelled token = true)
  joined : (here.joinSet set).joined ≤ (here.joinSet set).completed.length
  returned : ∀ entry ∈ (here.joinSet set).completed.take (here.joinSet set).joined,
    ∃ result, entry.2 = .returned result

/-- What has happened between two moments: the token stays cancelled, and what has
completed since it was has seen it. -/
structure Follows (tasks : List (String × TaskFn T E)) (token set : Nat)
    (moment later : Runtime T E) : Prop where
  cancelled : moment.cancelled token = true → later.cancelled token = true
  late : moment.cancelled token = true → ∀ entry ∈ (later.joinSet set).completed,
    entry ∈ (moment.joinSet set).completed ∨ ∃ task, (entry.1, task) ∈ tasks ∧ task true entry.2

/-- Every moment follows itself. -/
theorem Follows.refl (here : Runtime T E) : Follows tasks token set here here :=
  ⟨id, fun _ _ member => .inl member⟩

/-- What follows is followed on. -/
theorem Follows.trans {first middle last : Runtime T E}
    (before : Follows tasks token set first middle) (after : Follows tasks token set middle last) :
    Follows tasks token set first last := by
  refine ⟨fun cancelled => after.cancelled (before.cancelled cancelled), ?_⟩
  intro cancelled entry member
  rcases after.late (before.cancelled cancelled) entry member with old | isLate
  · exact before.late cancelled entry old
  · exact .inr isLate

/-- A call that neither cancels nor completes anything. -/
theorem Follows.of_same {here next : Runtime T E} (tokens : next.cancelled = here.cancelled)
    (completed : (next.joinSet set).completed = (here.joinSet set).completed) :
    Follows tasks token set here next := by
  refine ⟨fun cancelled => ?_, fun _ entry member => .inl ?_⟩
  · rw [tokens]
    exact cancelled
  · rw [← completed]
    exact member

/-- More tasks follow what fewer do. -/
theorem Follows.mono {tasks' : List (String × TaskFn T E)} {moment later : Runtime T E}
    (follows : Follows tasks token set moment later) (more : ∀ entry ∈ tasks, entry ∈ tasks') :
    Follows tasks' token set moment later := by
  refine ⟨follows.cancelled, fun cancelled entry member => ?_⟩
  rcases follows.late cancelled entry member with old | ⟨task, isTask, ends⟩
  · exact .inl old
  · exact .inr ⟨task, more _ isTask, ends⟩

/-- A cancelled token stays cancelled. -/
theorem Advances.cancelled {here next : Runtime T E} (advances : Advances cancels here next)
    (isCancelled : here.cancelled token = true) : next.cancelled token = true := by
  rcases advances.token token with same | ⟨-, cancelled⟩
  · exact same.trans isCancelled
  · exact cancelled

/-- Only the caller cancels. -/
theorem Advances.live {here next : Runtime T E} (advances : Advances cancels here next)
    (live : cancels token ∨ here.cancelled token = false) :
    cancels token ∨ next.cancelled token = false := by
  rcases advances.token token with same | ⟨caller, -⟩
  · rwa [same]
  · exact .inl caller

namespace Cancellable

variable {here next : Runtime T E}

/-- A task completes, and has seen its token if that was cancelled. -/
theorem completes (cancellable : Cancellable cancels tasks token set here)
    (sameTokens : next.cancelled = here.cancelled)
    (completes : (here.joinSet set).Completes here.cancelled (next.joinSet set)) :
    Cancellable cancels tasks token set next ∧ Follows tasks token set here next := by
  obtain ⟨_, spawned, _, ended, isRunning, ends, isNext⟩ := completes
  obtain ⟨isToken, isTask⟩ := cancellable.running spawned (by simp [isRunning])
  rw [isToken] at ends
  refine ⟨⟨?_, ?_, ?_, ?_, ?_, ?_⟩, ⟨?_, ?_⟩⟩ <;> simp only [sameTokens, isNext]
  · exact cancellable.live
  · exact (JoinSet.finish_names isRunning ended).trans cancellable.names
  · exact fun still member => cancellable.running still (JoinSet.mem_running isRunning member)
  · intro entry member
    rcases List.mem_append.mp member with old | isNew
    · exact cancellable.completed entry old
    · rw [List.mem_singleton.mp isNew]
      refine ⟨spawned.task, isTask, ?_⟩
      cases isCancelled : here.cancelled token with
      | false => exact .inl (isCancelled ▸ ends)
      | true => exact .inr ⟨isCancelled ▸ ends, rfl⟩
  · exact cancellable.joined.trans (by simp)
  · rw [List.take_append_of_le_length cancellable.joined]
    exact cancellable.returned
  · exact id
  · intro isCancelled entry member
    rcases List.mem_append.mp member with old | isNew
    · exact .inl old
    · rw [List.mem_singleton.mp isNew]
      exact .inr ⟨spawned.task, isTask, isCancelled ▸ ends⟩

/-- The environment keeps the invariant. -/
theorem advances (cancellable : Cancellable cancels tasks token set here)
    (advances : Advances cancels here next) :
    Cancellable cancels tasks token set next ∧ Follows tasks token set here next := by
  have stays : here.cancelled token = true → next.cancelled token = true := advances.cancelled
  rcases advances.joinSet set with same | ⟨sameTokens, completes⟩
  · refine ⟨⟨advances.live cancellable.live, ?_, ?_, ?_, ?_, ?_⟩, ⟨stays, ?_⟩⟩ <;> rw [same]
    · exact cancellable.names
    · exact cancellable.running
    · intro entry member
      obtain ⟨task, isTask, ends⟩ := cancellable.completed entry member
      exact ⟨task, isTask, ends.imp_right (And.imp_right stays)⟩
    · exact cancellable.joined
    · exact cancellable.returned
    · exact fun _ _ member => .inl member
  · exact cancellable.completes sameTokens completes

/-- Whether everything has been joined is not for the environment to say. -/
theorem advances_isEmpty (cancellable : Cancellable cancels tasks token set here)
    (advances : Advances cancels here next) (isEmpty : (next.joinSet set).isEmpty = true) :
    (here.joinSet set).isEmpty = true := by
  rcases advances.joinSet set with same | ⟨-, _, _, _, _, -, -, isNext⟩
  · rwa [same] at isEmpty
  · rw [isNext, JoinSet.isEmpty_iff] at isEmpty
    have joined := cancellable.joined
    have all := isEmpty.2
    simp only [List.length_append, List.length_singleton] at all
    omega

/-- Spawning puts one more task into the batch. -/
theorem spawn (cancellable : Cancellable cancels tasks token set here) (name : String)
    (task : TaskFn T E) :
    Cancellable cancels (tasks ++ [(name, task)]) token set
      (here.put set ((here.joinSet set).spawn { name, task, token })) := by
  refine ⟨cancellable.live, ?_, ?_, ?_, ?_, ?_⟩ <;> rw [Runtime.put_joinSet_self]
  · rw [List.map_append]
    exact JoinSet.spawn_names _ cancellable.names
  · intro spawned member
    rcases List.mem_append.mp member with old | isNew
    · obtain ⟨isToken, isTask⟩ := cancellable.running spawned old
      exact ⟨isToken, List.mem_append_left _ isTask⟩
    · rw [List.mem_singleton.mp isNew]
      exact ⟨rfl, List.mem_append_right _ List.mem_cons_self⟩
  · intro entry member
    obtain ⟨task, isTask, ends⟩ := cancellable.completed entry member
    exact ⟨task, List.mem_append_left _ isTask, ends⟩
  · exact cancellable.joined
  · exact cancellable.returned

/-- A result is joined. -/
theorem join (cancellable : Cancellable cancels tasks token set here) {name : String}
    {result : Except E T}
    (isNext : (here.joinSet set).completed[(here.joinSet set).joined]? =
      some (name, .returned result)) :
    Cancellable cancels tasks token set (here.put set
      { here.joinSet set with joined := (here.joinSet set).joined + 1 }) := by
  refine ⟨cancellable.live, ?_, ?_, ?_, ?_, ?_⟩ <;> rw [Runtime.put_joinSet_self]
  · exact cancellable.names
  · exact cancellable.running
  · exact cancellable.completed
  · exact (List.getElem?_eq_some_iff.mp isNext).1
  · intro entry member
    rw [List.take_add_one, isNext, Option.toList_some] at member
    rcases List.mem_append.mp member with old | isNew
    · exact cancellable.returned entry old
    · rw [List.mem_singleton.mp isNew]
      exact ⟨result, rfl⟩

/-- No more is joined than was spawned. -/
theorem joined_le (cancellable : Cancellable cancels tasks token set here) :
    (here.joinSet set).joined ≤ tasks.length := by
  have whole := cancellable.names.length_eq
  have joined := cancellable.joined
  simp only [List.length_append, List.length_map] at whole
  omega

/-- When everything has been joined, every task has completed. -/
theorem all_completed (cancellable : Cancellable cancels tasks token set here)
    (isEmpty : (here.joinSet set).isEmpty = true) :
    ((here.joinSet set).completed.map Prod.fst).Perm (tasks.map Prod.fst) := by
  have names := cancellable.names
  rwa [(JoinSet.isEmpty_iff.mp isEmpty).1, List.map_nil, List.append_nil] at names

/-- When everything has been joined, every task has returned. -/
theorem returned_of_mem (cancellable : Cancellable cancels tasks token set here)
    (isEmpty : (here.joinSet set).isEmpty = true) {entry : String × TaskFn T E}
    (isTask : entry ∈ tasks) :
    ∃ result, (entry.1, .returned result) ∈ (here.joinSet set).completed := by
  have names := cancellable.all_completed isEmpty
  obtain ⟨⟨name, ended⟩, member, rfl⟩ :=
    List.mem_map.mp (names.mem_iff.mpr (List.mem_map_of_mem (f := Prod.fst) isTask))
  have returned := cancellable.returned
  rw [List.take_of_length_le (JoinSet.isEmpty_iff.mp isEmpty).2] at returned
  obtain ⟨result, rfl⟩ := returned _ member
  exact ⟨result, member⟩

end Cancellable

end AltairRs.Concurrent
