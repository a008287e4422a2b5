import Mathlib.Data.List.TakeDrop
import AltairRs.Concurrent.Executor
import AltairRs.Concurrent.InFlight

/-!
# Virtual time

`timed` is the runtime on a virtual clock: every task ends when it is due, and the
clock advances only while a call waits and no task is due. A task that is due just when
a timeout elapses may complete before that is noticed, or after. `Underway` is the
invariant of a batch in it: what still runs is not overdue, what has completed and
not been joined has completed just now.
-/

namespace AltairRs.Concurrent

open Effect Keyed

variable {T E : Type}

/-- A task that comes to one end at a fixed time, or never. -/
structure TimedTask (T E : Type) where
  due : Option Nat
  ends : TaskEnd T E

/-- Cancelled or not, the task comes to its end. -/
def TimedTask.task (timed : TimedTask T E) : TaskFn T E := fun _ ended => ended = timed.ends

/-- Timed tasks under their names. -/
abbrev Batch (T E : Type) := OrderedMap String (TimedTask T E)

namespace Batch

/-- The task map of a batch. -/
def tasks (batch : Batch T E) : TaskMap T E := batch.map TimedTask.task

/-- When the task under a name is due. -/
def due (batch : Batch T E) (name : String) : Option Nat :=
  (batch.lookup name).bind TimedTask.due

/-- A task's deadline is that of its entry. -/
theorem due_of_mem {batch : Batch T E} {name : String} {timed : TimedTask T E}
    (member : (name, timed) ∈ batch.entries) : batch.due name = timed.due := by
  rw [due, OrderedMap.lookup_of_mem member, Option.bind_some]

end Batch

/-- The call waits for a completion. -/
def RuntimeOp.Pending (here : Runtime T E) : RuntimeOp T E → Prop
  | .joinNext set | .joinNextTimeout set _ => (here.joinSet set).joinNext = none
  | _ => False

/-- No running task is due. -/
def Runtime.Settled (here : Runtime T E) (due : String → Option Nat) : Prop :=
  ∀ set, ∀ spawned ∈ (here.joinSet set).running, due spawned.name ≠ some here.now

/-- What happens during a call: tasks end when they are due, and time passes while the
call waits and nothing is due. -/
inductive Timed (due : String → Option Nat) (op : RuntimeOp T E) :
    Runtime T E → Runtime T E → Prop where
  | tick {here} (waits : op.Pending here) (settled : here.Settled due) :
      Timed due op here { here with now := here.now + 1 }
  | finish {here set before spawned after ended}
      (isRunning : (here.joinSet set).running = before ++ spawned :: after)
      (isDue : due spawned.name = some here.now)
      (ends : spawned.task (here.cancelled spawned.token) ended) :
      Timed due op here (here.put set
        { here.joinSet set with
          running := before ++ after
          completed := (here.joinSet set).completed ++ [(spawned.name, ended)] })

/-- The runtime on a virtual clock. A call that still waits, because its timeout has
elapsed, may be answered while tasks are due, unless completions come first. -/
def timed (due : String → Option Nat) (completionsFirst : Prop) :
    World (runtimeSignature T E) (Runtime T E) where
  Answers start op response next :=
    ∃ ready, Relation.ReflTransGen (Timed due op) start ready ∧
      (completionsFirst → op.Pending ready → ready.Settled due) ∧
      op.Effect start ready response next

variable {due : String → Option Nat} {completionsFirst : Prop} {op : RuntimeOp T E}

/-- Completions may come first. -/
theorem timed_of_completionsFirst {α : Type} {program remainder : RuntimeProgram T E α}
    {here final : Runtime T E} {events : List (Event (runtimeSignature T E))}
    (reaches : Reaches (timed due completionsFirst) program here events remainder final) :
    Reaches (timed due False) program here events remainder final := by
  apply reaches.in_world
  rintro start op response next ⟨ready, steps, _, effect⟩
  exact ⟨ready, steps, False.elim, effect⟩

/-- A timed step is quiet. -/
theorem Timed.quiet {here next : Runtime T E} (step : Timed due op here next) :
    Quiet here next := by
  cases step with
  | tick => exact .tick
  | finish isRunning isDue ends => exact .finish isRunning ends

/-- Executions on the clock are executions of the runtime. -/
theorem timed_reaches {α : Type} {program remainder : RuntimeProgram T E α}
    {here final : Runtime T E}
    {events : List (Event (runtimeSignature T E))}
    (reaches : Reaches (timed due completionsFirst) program here events remainder final) :
    Reaches (runtime Quiet) program here events remainder final := by
  apply reaches.in_world
  rintro start op response next ⟨ready, steps, _, effect⟩
  exact ⟨ready, Relation.ReflTransGen.mono (fun _ _ step => Timed.quiet step) _ _ steps, effect⟩

/-- Time stands still during a call that does not wait. -/
theorem now_of_not_waiting {here ready : Runtime T E} (immediate : ∀ runtime, ¬ op.Pending runtime)
    (steps : Relation.ReflTransGen (Timed due op) here ready) : ready.now = here.now := by
  induction steps with
  | refl => rfl
  | tail _ step ih =>
      cases step with
      | tick waits => exact absurd waits (immediate _)
      | finish => exact ih

/-- A batch in its set: these tasks were spawned, and these have been joined. -/
structure Underway (due : String → Option Nat) (tasks : List (String × TimedTask T E)) (set : Nat)
    (consumed : List (String × TaskEnd T E)) (here : Runtime T E) : Prop where
  names : ((here.joinSet set).completed.map Prod.fst ++
    (here.joinSet set).running.map Spawned.name).Perm (tasks.map Prod.fst)
  running : ∀ spawned ∈ (here.joinSet set).running, ∃ timed, (spawned.name, timed) ∈ tasks ∧
    spawned.task = timed.task ∧ ∀ t, due spawned.name = some t → here.now ≤ t
  completed : ∀ entry ∈ (here.joinSet set).completed, ∃ timed, (entry.1, timed) ∈ tasks ∧
    entry.2 = timed.ends ∧ ∃ t ≤ here.now, due entry.1 = some t
  recent : ∀ entry ∈ (here.joinSet set).completed.drop consumed.length, due entry.1 = some here.now
  isFront : consumed <+: (here.joinSet set).completed
  joined : (here.joinSet set).joined = consumed.length
  alone : ∀ other, other ≠ set → (here.joinSet other).running = []

namespace Underway

variable {tasks : List (String × TimedTask T E)} {set : Nat}
  {consumed : List (String × TaskEnd T E)} {here : Runtime T E}

/-- While a join is pending everything completed has been joined, and something runs. -/
theorem of_pending (underway : Underway due tasks set consumed here)
    (pending : (here.joinSet set).joinNext = none) :
    (here.joinSet set).completed = consumed ∧ (here.joinSet set).running ≠ [] := by
  obtain ⟨rest, isCompleted⟩ := underway.isFront
  rw [JoinSet.joinNext_of_front isCompleted underway.joined] at pending
  cases rest with
  | cons entry later => cases pending
  | nil =>
      refine ⟨by rw [← isCompleted, List.append_nil], fun idle => ?_⟩
      simp [idle] at pending

/-- What happens during a call keeps the batch underway. -/
theorem step (underway : Underway due tasks set consumed here) {next : Runtime T E}
    (waitsHere : op.Pending here → (here.joinSet set).joinNext = none)
    (step : Timed due op here next) : Underway due tasks set consumed next := by
  cases step with
  | tick waits settled =>
      obtain ⟨allJoined, _⟩ := underway.of_pending (waitsHere waits)
      refine ⟨underway.names, fun spawned member => ?_, fun entry member => ?_, ?_,
        underway.isFront, underway.joined, underway.alone⟩
      · obtain ⟨timed, isTask, isFn, notOver⟩ := underway.running spawned member
        refine ⟨timed, isTask, isFn, fun t isDue => Nat.lt_of_le_of_ne (notOver t isDue) ?_⟩
        rintro rfl
        exact settled set spawned member isDue
      · obtain ⟨timed, isTask, isEnd, t, before, isDue⟩ := underway.completed entry member
        exact ⟨timed, isTask, isEnd, t, Nat.le_succ_of_le before, isDue⟩
      · simp [allJoined]
  | @finish other before spawned after ended isRunning isDue ends =>
      obtain rfl : other = set := by
        by_contra different
        have idle := underway.alone other different
        simp [idle] at isRunning
      obtain ⟨timed, isTask, isFn, _⟩ := underway.running spawned (by simp [isRunning])
      rw [isFn] at ends
      constructor
      all_goals try rw [Runtime.put_joinSet_self]
      · exact (JoinSet.finish_names isRunning ended).trans underway.names
      · intro still member
        exact underway.running still (JoinSet.mem_running isRunning member)
      · intro entry member
        rcases List.mem_append.mp member with old | isNew
        · exact underway.completed entry old
        · rw [List.mem_singleton.mp isNew]
          exact ⟨timed, isTask, ends, _, Nat.le_refl _, isDue⟩
      · intro entry member
        rw [List.drop_append_of_le_length underway.isFront.length_le] at member
        rcases List.mem_append.mp member with old | isNew
        · exact underway.recent entry old
        · rw [List.mem_singleton.mp isNew]
          exact isDue
      · exact underway.isFront.trans (List.prefix_append _ _)
      · exact underway.joined
      · intro different isOther
        rw [Runtime.put_joinSet_ne _ _ isOther]
        exact underway.alone different isOther

/-- What is underway stays so while nothing can be joined. -/
theorem steps (underway : Underway due tasks set consumed here) {ready : Runtime T E}
    (waitsHere : ∀ runtime, op.Pending runtime → (runtime.joinSet set).joinNext = none)
    (steps : Relation.ReflTransGen (Timed due op) here ready) :
    Underway due tasks set consumed ready := by
  induction steps with
  | refl => exact underway
  | tail _ step ih => exact ih.step (waitsHere _) step

/-- Spawning puts one more task underway. -/
theorem spawn (underway : Underway due tasks set consumed here) {name : String}
    {timed : TimedTask T E} (token : Nat) (notOver : ∀ t, due name = some t → here.now ≤ t) :
    Underway due (tasks ++ [(name, timed)]) set consumed
      (here.put set ((here.joinSet set).spawn { name, task := timed.task, token })) := by
  constructor
  all_goals try rw [Runtime.put_joinSet_self]
  · rw [List.map_append]
    exact JoinSet.spawn_names _ underway.names
  · intro spawned member
    rcases List.mem_append.mp member with old | isNew
    · obtain ⟨other, isTask, isFn, later⟩ := underway.running spawned old
      exact ⟨other, List.mem_append_left _ isTask, isFn, later⟩
    · rw [List.mem_singleton.mp isNew]
      exact ⟨timed, List.mem_append_right _ List.mem_cons_self, rfl, notOver⟩
  · intro entry member
    obtain ⟨other, isTask, isEnd, isPast⟩ := underway.completed entry member
    exact ⟨other, List.mem_append_left _ isTask, isEnd, isPast⟩
  · exact underway.recent
  · exact underway.isFront
  · exact underway.joined
  · intro other isOther
    rw [Runtime.put_joinSet_ne _ _ isOther]
    exact underway.alone other isOther

/-- Joining the next completion consumes it. -/
theorem join {entry : String × TaskEnd T E} {later : List (String × TaskEnd T E)}
    (underway : Underway due tasks set consumed here)
    (isCompleted : consumed ++ entry :: later = (here.joinSet set).completed) :
    Underway due tasks set (consumed ++ [entry])
      (here.put set { here.joinSet set with joined := (here.joinSet set).joined + 1 }) := by
  constructor
  all_goals try rw [Runtime.put_joinSet_self]
  · exact underway.names
  · exact underway.running
  · exact underway.completed
  · intro other member
    apply underway.recent other
    have isSplit : consumed ++ entry :: later = (consumed ++ [entry]) ++ later := by simp
    rw [← isCompleted, isSplit, List.drop_left] at member
    rw [← isCompleted, List.drop_left]
    exact List.mem_cons_of_mem _ member
  · exact ⟨later, by rw [← isCompleted, List.append_assoc, List.singleton_append]⟩
  · rw [List.length_append, List.length_singleton, ← underway.joined]
  · intro other isOther
    rw [Runtime.put_joinSet_ne _ _ isOther]
    exact underway.alone other isOther

/-- A join is ready, or the next task ends now, or nothing is due. -/
theorem poll (underway : Underway due tasks set consumed here) (op : RuntimeOp T E) :
    (∃ next, Relation.ReflTransGen (Timed due op) here next ∧ next.now = here.now ∧
      ∃ raw after, (next.joinSet set).joinNext = some (raw, after)) ∨
    (here.joinSet set).joinNext = none ∧ here.Settled due := by
  cases isPolled : (here.joinSet set).joinNext with
  | some polled => exact .inl ⟨here, .refl, rfl, polled.1, polled.2, isPolled⟩
  | none =>
      by_cases settled : here.Settled due
      · exact .inr ⟨rfl, settled⟩
      · obtain ⟨other, spawned, member, isDue⟩ : ∃ other, ∃ spawned ∈ (here.joinSet other).running,
            due spawned.name = some here.now := by
          simpa [Runtime.Settled] using settled
        obtain rfl : other = set := by
          by_contra different
          rw [underway.alone other different] at member
          cases member
        obtain ⟨allJoined, _⟩ := underway.of_pending isPolled
        obtain ⟨timed, _, isFn, _⟩ := underway.running spawned member
        obtain ⟨before, after, isRunning⟩ := List.append_of_mem member
        have ends : spawned.task (here.cancelled spawned.token) timed.ends := by
          rw [isFn]
          rfl
        have isNext : ((here.joinSet other).completed ++
            [(spawned.name, timed.ends)])[(here.joinSet other).joined]? =
              some (spawned.name, timed.ends) := by
          rw [underway.joined, allJoined, List.getElem?_concat_length]
        refine .inl ⟨_, .single (.finish isRunning isDue ends), rfl, ?_⟩
        rw [Runtime.put_joinSet_self]
        exact ⟨_, _, JoinSet.joinNext_of_next isNext⟩

/-- Before the deadline a join comes to a completion or to the deadline. -/
theorem answerable (duration remaining : Nat)
    (underway : Underway due tasks set consumed here) :
    ∃ ready, Relation.ReflTransGen (Timed due (.joinNextTimeout set duration)) here ready ∧
      ((∃ raw after, (ready.joinSet set).joinNext = some (raw, after)) ∧
          ready.now ≤ here.now + remaining ∨
        (ready.joinSet set).joinNext = none ∧ ready.Settled due ∧
          ready.now = here.now + remaining) := by
  induction remaining generalizing here with
  | zero =>
      rcases underway.poll (.joinNextTimeout set duration) with
        ⟨ready, steps, sameTime, polled⟩ | ⟨pending, settled⟩
      · exact ⟨ready, steps, .inl ⟨polled, by omega⟩⟩
      · exact ⟨here, .refl, .inr ⟨pending, settled, rfl⟩⟩
  | succ remaining ih =>
      rcases underway.poll (.joinNextTimeout set duration) with
        ⟨ready, steps, sameTime, polled⟩ | ⟨pending, settled⟩
      · exact ⟨ready, steps, .inl ⟨polled, by omega⟩⟩
      · have tick : Timed due (.joinNextTimeout set duration) here _ := .tick pending settled
        obtain ⟨ready, steps, answer⟩ := ih (underway.step id tick)
        refine ⟨ready, .head tick steps, answer.imp ?_ ?_⟩
        · rintro ⟨polled, inTime⟩
          exact ⟨polled, by simp only at inTime; omega⟩
        · rintro ⟨stillPending, isSettled, atDeadline⟩
          exact ⟨stillPending, isSettled, by simp only at atDeadline; omega⟩

/-- What a join finds that is ready: nothing more, or what has completed just now. -/
theorem joins (underway : Underway due tasks set consumed here)
    {raw : Option (Except JoinError (TaskOutcome T E))} {after : JoinSet T E}
    (ready : (here.joinSet set).joinNext = some (raw, after)) :
    raw = none ∧ (here.joinSet set).running = [] ∧ (here.joinSet set).completed = consumed ∨
      ∃ entry, raw = some (JoinSet.outcome entry) ∧ due entry.1 = some here.now ∧
        Underway due tasks set (consumed ++ [entry]) (here.put set after) := by
  obtain ⟨rest, isCompleted⟩ := underway.isFront
  rw [JoinSet.joinNext_of_front isCompleted underway.joined] at ready
  cases rest with
  | nil =>
      rw [List.append_nil] at isCompleted
      by_cases idle : (here.joinSet set).running.isEmpty
      · simp only [idle, if_true, Option.some.injEq, Prod.mk.injEq] at ready
        exact .inl ⟨ready.1.symm, List.isEmpty_iff.mp idle, isCompleted.symm⟩
      · simp [idle] at ready
  | cons entry later =>
      obtain ⟨rfl, rfl⟩ := Prod.mk.inj (Option.some.inj ready)
      refine .inr ⟨entry, rfl, underway.recent entry ?_, underway.join isCompleted⟩
      rw [← isCompleted, List.drop_left]
      exact List.mem_cons_self

/-- At the elapsed deadline every task has been joined or is due later. -/
theorem at_deadline (underway : Underway due tasks set consumed here)
    (pending : (here.joinSet set).joinNext = none) (settled : here.Settled due)
    {name : String} {timed : TimedTask T E}
    (isTask : (name, timed) ∈ tasks) :
    (∃ ended, (name, ended) ∈ consumed) ∨ ∀ t, due name = some t → here.now < t := by
  obtain ⟨allJoined, _⟩ := underway.of_pending pending
  have listed := underway.names.mem_iff.mpr (List.mem_map_of_mem (f := Prod.fst) isTask)
  rcases List.mem_append.mp listed with isCompleted | isRunning
  · obtain ⟨⟨_, ended⟩, member, rfl⟩ := List.mem_map.mp isCompleted
    exact .inl ⟨ended, allJoined ▸ member⟩
  · obtain ⟨spawned, member, rfl⟩ := List.mem_map.mp isRunning
    obtain ⟨_, _, _, notOver⟩ := underway.running spawned member
    refine .inr fun t isDue => Nat.lt_of_le_of_ne (notOver t isDue) ?_
    rintro rfl
    exact settled set spawned member isDue

/-- When nothing runs and everything is joined, every task has been. -/
theorem all_consumed (underway : Underway due tasks set consumed here)
    (idle : (here.joinSet set).running = []) (isAll : (here.joinSet set).completed = consumed)
    {name : String} {timed : TimedTask T E} (isTask : (name, timed) ∈ tasks) :
    ∃ ended, (name, ended) ∈ consumed := by
  have listed := underway.names.mem_iff.mpr (List.mem_map_of_mem (f := Prod.fst) isTask)
  rw [idle, isAll, List.map_nil, List.append_nil] at listed
  obtain ⟨⟨_, ended⟩, member, rfl⟩ := List.mem_map.mp listed
  exact ⟨ended, member⟩

/-- What is consumed was due by now and came to its task's end. -/
theorem of_consumed (underway : Underway due tasks set consumed here)
    (distinct : (tasks.map Prod.fst).Nodup) {name : String} {ended : TaskEnd T E}
    {timed : TimedTask T E} (isTask : (name, timed) ∈ tasks) (member : (name, ended) ∈ consumed) :
    ended = timed.ends ∧ ∃ t ≤ here.now, due name = some t := by
  obtain ⟨other, isOther, isEnd, isPast⟩ :=
    underway.completed _ (underway.isFront.subset member)
  have sameEntry := List.inj_on_of_nodup_map distinct isTask isOther rfl
  obtain rfl : timed = other := congrArg Prod.snd sameEntry
  exact ⟨isEnd, isPast⟩

/-- No more is consumed than was spawned. -/
theorem consumed_le (underway : Underway due tasks set consumed here) :
    consumed.length ≤ tasks.length := by
  have whole := underway.names.length_eq
  have front := underway.isFront.length_le
  simp only [List.length_append, List.length_map] at whole
  omega

end Underway

/-- One call on the clock, from what it does wherever it may be answered. -/
theorem perform_timed {here : Runtime T E} (op : RuntimeOp T E)
    {Post : (runtimeSignature T E).Response op → Runtime T E → Prop}
    (progress : ∃ ready response next, Relation.ReflTransGen (Timed due op) here ready ∧
      (completionsFirst → op.Pending ready → ready.Settled due) ∧
      op.Effect here ready response next)
    (step : ∀ ready response next, Relation.ReflTransGen (Timed due op) here ready →
      (completionsFirst → op.Pending ready → ready.Settled due) →
        op.Effect here ready response next → Post response next) :
    Settles (timed due completionsFirst) Post (Program.perform (runtimeSignature T E) op) here := by
  obtain ⟨ready, response, next, steps, settled, effect⟩ := progress
  refine ⟨⟨response, next, ready, steps, settled, effect⟩, ?_⟩
  rintro response next ⟨ready, steps, settled, effect⟩
  exact step ready response next steps settled effect

end AltairRs.Concurrent
