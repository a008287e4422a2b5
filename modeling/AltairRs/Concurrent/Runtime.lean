import Mathlib.Logic.Function.Basic
import Mathlib.Logic.Relation
import AltairRs.Effect.Program

/-!
# The async runtime

What the executors use of the runtime: cancellation tokens, sets of spawned
tasks, and a clock. Tasks finish, the caller cancels, and time passes between
any two calls of a program; a finished task waits in its set, in the order of
completion, until it is joined.
-/

namespace AltairRs.Concurrent

open Effect

variable {T E : Type}

/-- Why joining a task failed. -/
inductive JoinError where
  | panic
  | cancelled
deriving DecidableEq, Repr

/-- How a task ends: with its result, or without one. -/
inductive TaskEnd (T E : Type) where
  | returned (result : Except E T)
  | aborted (error : JoinError)

/-- The ends a task may come to, given whether its token is cancelled then. -/
abbrev TaskFn (T E : Type) := Bool → TaskEnd T E → Prop

/-- A task under its name, with the token it was given. -/
structure Spawned (T E : Type) where
  name : String
  task : TaskFn T E
  token : Nat

/-- A name with the result of its task. -/
abbrev TaskOutcome (T E : Type) := String × Except E T

/-- The tasks still running, all those that have completed, in that order, and how
many of them have been joined. -/
structure JoinSet (T E : Type) where
  running : List (Spawned T E) := []
  completed : List (String × TaskEnd T E) := []
  joined : Nat := 0

namespace JoinSet

def spawn (set : JoinSet T E) (spawned : Spawned T E) : JoinSet T E :=
  { set with running := set.running ++ [spawned] }

/-- `JoinSet::is_empty`: every task has been joined. -/
def isEmpty (set : JoinSet T E) : Bool :=
  set.running.isEmpty && set.completed.length ≤ set.joined

/-- What joining a completed task yields. -/
def outcome (entry : String × TaskEnd T E) : Except JoinError (TaskOutcome T E) :=
  match entry.2 with
  | .returned result => .ok (entry.1, result)
  | .aborted error => .error error

/-- A poll of `JoinSet::join_next`; `none` while it is pending. -/
def joinNext (set : JoinSet T E) :
    Option (Option (Except JoinError (TaskOutcome T E)) × JoinSet T E) :=
  match set.completed[set.joined]? with
  | some entry => some (some (outcome entry), { set with joined := set.joined + 1 })
  | none => if set.running.isEmpty then some (none, set) else none

/-- The next completed task is joined. -/
theorem joinNext_of_next {set : JoinSet T E} {entry : String × TaskEnd T E}
    (isNext : set.completed[set.joined]? = some entry) :
    set.joinNext = some (some (outcome entry), { set with joined := set.joined + 1 }) := by
  simp only [joinNext, isNext]

/-- While the joined are a front of the completed, the rest decides a poll. -/
theorem joinNext_of_front {set : JoinSet T E} {consumed rest : List (String × TaskEnd T E)}
    (isCompleted : consumed ++ rest = set.completed) (joined : set.joined = consumed.length) :
    set.joinNext = match rest with
      | entry :: _ => some (some (outcome entry), { set with joined := set.joined + 1 })
      | [] => if set.running.isEmpty then some (none, set) else none := by
  have isNext : set.completed[set.joined]? = rest.head? := by
    rw [joined, ← isCompleted, List.getElem?_append_right (Nat.le_refl _), Nat.sub_self,
      List.head?_eq_getElem?]
  cases rest with
  | nil => simp only [joinNext, isNext, List.head?_nil]
  | cons entry later => exact joinNext_of_next isNext

/-- The names of a set with one more task. -/
theorem spawn_names {set : JoinSet T E} {names : List String} (spawned : Spawned T E)
    (areNames : (set.completed.map Prod.fst ++ set.running.map Spawned.name).Perm names) :
    (set.completed.map Prod.fst ++ (set.spawn spawned).running.map Spawned.name).Perm
      (names ++ [spawned.name]) := by
  simp only [spawn, List.map_append, List.map_cons, List.map_nil, ← List.append_assoc]
  exact areNames.append_right [spawned.name]

/-- One of the tasks that run completes, as its token then tells it to. -/
def Completes (cancelled : Nat → Bool) (set next : JoinSet T E) : Prop :=
  ∃ before spawned after ended, set.running = before ++ spawned :: after ∧
    spawned.task (cancelled spawned.token) ended ∧
    next = { set with
      running := before ++ after
      completed := set.completed ++ [(spawned.name, ended)] }

/-- A task that completes keeps its name in the set. -/
theorem finish_names {set : JoinSet T E} {before after : List (Spawned T E)}
    {spawned : Spawned T E} (isRunning : set.running = before ++ spawned :: after)
    (ended : TaskEnd T E) :
    ((set.completed ++ [(spawned.name, ended)]).map Prod.fst ++
      (before ++ after).map Spawned.name).Perm
        (set.completed.map Prod.fst ++ set.running.map Spawned.name) := by
  rw [isRunning]
  simp only [List.map_append, List.map_cons, List.map_nil, List.append_assoc,
    List.singleton_append]
  apply List.Perm.append_left _
  exact List.perm_middle.symm

/-- What still runs when a task has completed ran before. -/
theorem mem_running {set : JoinSet T E} {before after : List (Spawned T E)}
    {spawned still : Spawned T E} (isRunning : set.running = before ++ spawned :: after)
    (member : still ∈ before ++ after) : still ∈ set.running := by
  rw [isRunning]
  exact List.perm_middle.mem_iff.mpr (List.mem_cons_of_mem _ member)

/-- `JoinSet::shutdown`: what runs is aborted, what has completed is dropped. -/
def shutdown (set : JoinSet T E) : JoinSet T E :=
  { set with running := [], joined := set.completed.length }

end JoinSet

/-- The clock, the tokens and the sets; both are known by their number. -/
structure Runtime (T E : Type) where
  now : Nat := 0
  tokens : Nat := 0
  cancelled : Nat → Bool := fun _ => false
  sets : Nat := 0
  joinSet : Nat → JoinSet T E := fun _ => {}

namespace Runtime

/-- Change one set. -/
def put (runtime : Runtime T E) (set : Nat) (joinSet : JoinSet T E) : Runtime T E :=
  { runtime with joinSet := Function.update runtime.joinSet set joinSet }

/-- `CancellationToken::cancel`. -/
def cancel (runtime : Runtime T E) (token : Nat) : Runtime T E :=
  { runtime with cancelled := Function.update runtime.cancelled token true }

@[simp] theorem put_joinSet_self (runtime : Runtime T E) (set : Nat) (joinSet : JoinSet T E) :
    (runtime.put set joinSet).joinSet set = joinSet := by simp [put]

/-- Other sets stay. -/
theorem put_joinSet_ne (runtime : Runtime T E) {set other : Nat} (joinSet : JoinSet T E)
    (different : other ≠ set) :
    (runtime.put set joinSet).joinSet other = runtime.joinSet other := by
  simp [put, different]

/-- A set that is put back changes nothing. -/
theorem put_self (runtime : Runtime T E) (set : Nat) :
    runtime.put set (runtime.joinSet set) = runtime := by simp [put]

@[simp] theorem put_cancelled (runtime : Runtime T E) (set : Nat) (joinSet : JoinSet T E) :
    (runtime.put set joinSet).cancelled = runtime.cancelled := rfl

end Runtime

/-- What happens between calls: time passes, a task completes, or the caller
cancels one of its tokens. -/
inductive Advances (cancels : Nat → Prop) : Runtime T E → Runtime T E → Prop where
  | tick {runtime} : Advances cancels runtime { runtime with now := runtime.now + 1 }
  | finish {runtime set before spawned after ended}
      (isRunning : (runtime.joinSet set).running = before ++ spawned :: after)
      (ends : spawned.task (runtime.cancelled spawned.token) ended) :
      Advances cancels runtime (runtime.put set
        { runtime.joinSet set with
          running := before ++ after
          completed := (runtime.joinSet set).completed ++ [(spawned.name, ended)] })
  | cancel {runtime token} (caller : cancels token) :
      Advances cancels runtime (runtime.cancel token)

namespace Advances

variable {cancels : Nat → Prop} {here next : Runtime T E}

/-- In any one set either nothing happens, or one of its tasks completes. -/
theorem joinSet (advances : Advances cancels here next) (set : Nat) :
    next.joinSet set = here.joinSet set ∨ next.cancelled = here.cancelled ∧
      (here.joinSet set).Completes here.cancelled (next.joinSet set) := by
  cases advances with
  | tick => exact .inl rfl
  | cancel => exact .inl rfl
  | @finish other before spawned after ended isRunning ends =>
      by_cases same : set = other
      · subst same
        rw [Runtime.put_joinSet_self]
        exact .inr ⟨rfl, before, spawned, after, ended, isRunning, ends, rfl⟩
      · exact .inl (Runtime.put_joinSet_ne here _ same)

/-- A token stays as it was, unless the caller cancels it. -/
theorem token (advances : Advances cancels here next) (token : Nat) :
    next.cancelled token = here.cancelled token ∨ cancels token ∧ next.cancelled token = true := by
  cases advances with
  | tick => exact .inl rfl
  | finish => exact .inl rfl
  | @cancel other caller =>
      by_cases same : token = other
      · subst same
        exact .inr ⟨caller, Function.update_self ..⟩
      · exact .inl (Function.update_of_ne same _ _)

/-- Nobody else makes sets. -/
theorem sets (advances : Advances cancels here next) : next.sets = here.sets := by
  cases advances <;> rfl

end Advances

/-- The calls of an executor. -/
inductive RuntimeOp (T E : Type) where
  | newToken
  | newSet
  | spawn (set : Nat) (spawned : Spawned T E)
  | joinNext (set : Nat)
  | joinNextTimeout (set duration : Nat)
  | cancel (token : Nat)
  | isCancelled (token : Nat)
  | isEmpty (set : Nat)
  | shutdown (set : Nat)

/-- A join under a timeout answers `none` when the timeout has elapsed. -/
abbrev runtimeSignature (T E : Type) : Signature where
  Op := RuntimeOp T E
  Response
    | .newToken | .newSet => Nat
    | .spawn .. | .cancel _ | .shutdown _ => Unit
    | .joinNext _ => Option (Except JoinError (TaskOutcome T E))
    | .joinNextTimeout .. => Option (Option (Except JoinError (TaskOutcome T E)))
    | .isCancelled _ | .isEmpty _ => Bool

abbrev RuntimeProgram (T E α : Type) := Program (runtimeSignature T E) α

def newToken : RuntimeProgram T E Nat := Program.perform (runtimeSignature T E) .newToken

def newSet : RuntimeProgram T E Nat := Program.perform (runtimeSignature T E) .newSet

def spawn (set : Nat) (spawned : Spawned T E) : RuntimeProgram T E Unit :=
  Program.perform (runtimeSignature T E) (.spawn set spawned)

def joinNext (set : Nat) : RuntimeProgram T E (Option (Except JoinError (TaskOutcome T E))) :=
  Program.perform (runtimeSignature T E) (.joinNext set)

/-- `tokio::time::timeout(duration, set.join_next())`. -/
def joinNextTimeout (set duration : Nat) :
    RuntimeProgram T E (Option (Option (Except JoinError (TaskOutcome T E)))) :=
  Program.perform (runtimeSignature T E) (.joinNextTimeout set duration)

def cancel (token : Nat) : RuntimeProgram T E Unit :=
  Program.perform (runtimeSignature T E) (.cancel token)

def isCancelled (token : Nat) : RuntimeProgram T E Bool :=
  Program.perform (runtimeSignature T E) (.isCancelled token)

def isEmpty (set : Nat) : RuntimeProgram T E Bool :=
  Program.perform (runtimeSignature T E) (.isEmpty set)

def shutdown (set : Nat) : RuntimeProgram T E Unit :=
  Program.perform (runtimeSignature T E) (.shutdown set)

/-- The effect of a call that was made at `start` and is answered at `ready`. A timeout polls
the join before it looks at the clock; a task that is due when it elapses may still have to
complete then. -/
def RuntimeOp.Effect (start ready : Runtime T E) :
    (op : RuntimeOp T E) → (runtimeSignature T E).Response op → Runtime T E → Prop
  | .newToken, token, next => token = ready.tokens ∧
      next = { ready with
        tokens := ready.tokens + 1
        cancelled := Function.update ready.cancelled ready.tokens false }
  | .newSet, set, next => set = ready.sets ∧ next = { ready.put ready.sets {} with
      sets := ready.sets + 1 }
  | .spawn set spawned, _, next => next = ready.put set ((ready.joinSet set).spawn spawned)
  | .joinNext set, response, next =>
      ∃ after, (ready.joinSet set).joinNext = some (response, after) ∧ next = ready.put set after
  | .joinNextTimeout set duration, some response, next =>
      ready.now ≤ start.now + duration ∧
        ∃ after, (ready.joinSet set).joinNext = some (response, after) ∧ next = ready.put set after
  | .joinNextTimeout set duration, none, next =>
      ready.now = start.now + duration ∧ (ready.joinSet set).joinNext = none ∧ next = ready
  | .cancel token, _, next => next = ready.cancel token
  | .isCancelled token, response, next => response = ready.cancelled token ∧ next = ready
  | .isEmpty set, response, next => response = (ready.joinSet set).isEmpty ∧ next = ready
  | .shutdown set, _, next => next = ready.put set (ready.joinSet set).shutdown

/-- The runtime in an environment, which goes on until it lets the call be answered. -/
def runtime (environment : Runtime T E → Runtime T E → Prop) :
    World (runtimeSignature T E) (Runtime T E) where
  Answers start op response next :=
    ∃ ready, Relation.ReflTransGen environment start ready ∧ op.Effect start ready response next

end AltairRs.Concurrent
