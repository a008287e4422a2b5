import AltairRs.Concurrent.Clock

/-!
# The timeout as a deadline

`with_timeout` is documented as an overall timeout. It is armed again at every
join, so it bounds the wait for the next completion instead; the module settles
for which batches the two cannot be told apart.
-/

namespace AltairRs.Concurrent

open Effect Keyed

variable {T E α : Type}

namespace Batch

/-- Every task completes by the deadline. -/
def CompleteBy (batch : Batch T E) (deadline : Nat) : Prop :=
  ∀ entry ∈ batch.entries, ∃ t ≤ deadline, entry.2.due = some t

/-- A task comes by the deadline to an end that ends the batch. -/
def FailsBy (batch : Batch T E) (endsBatch : TaskEnd T E → Prop) (deadline : Nat) : Prop :=
  ∃ entry ∈ batch.entries, endsBatch entry.2.ends ∧ ∃ t ≤ deadline, entry.2.due = some t

/-- A task completes after the start and by the deadline. -/
def Rearms (batch : Batch T E) (deadline : Nat) : Prop :=
  ∃ entry ∈ batch.entries, ∃ t, entry.2.due = some t ∧ 0 < t ∧ t ≤ deadline

end Batch

/-- The ends that end a fail-fast batch. -/
def failFastEnds : TaskEnd T E → Prop
  | .returned (.ok _) => False
  | _ => True

/-- The ends that end a batch with partial results. -/
def partialEnds : TaskEnd T E → Prop
  | .returned _ => False
  | .aborted _ => True

/-- A clock at zero and no tasks; the caller's tokens are in any state. -/
def Runtime.fresh (tokens : Nat) (cancelled : Nat → Bool) : Runtime T E := { tokens, cancelled }

/-- The documented timeout: a batch succeeds only if it is complete by the deadline,
and if it is not and nothing has ended it by then, the deadline ends it. -/
def OverallDeadline (batch : Batch T E) (deadline : Nat) (endsBatch : TaskEnd T E → Prop)
    (program : RuntimeProgram T E (Option (Result E α))) (start : Runtime T E) : Prop :=
  Settles (timed batch.due False)
    (fun value final => ∃ result, value = some result ∧
      ((∃ results, result = .ok results) → batch.CompleteBy deadline) ∧
      (¬ batch.CompleteBy deadline → ¬ batch.FailsBy endsBatch deadline →
        result = .error .timeout ∧ final.now = deadline))
    program start

/-- How a batch ends under a timeout that was last armed at some time. If completions come
first, a task that is due when the timeout elapses has completed. -/
inductive BatchEnd (batch : Batch T E) (completionsFirst : Prop) (timeout : Nat)
    (endsBatch : TaskEnd T E → Prop) : Option (Result E α) → Nat → Prop where
  | finished {result armed now} (complete : batch.CompleteBy armed)
      (succeeded : ∀ entry ∈ batch.entries, ¬ endsBatch entry.2.ends)
      (rearmed : 0 < armed → batch.Rearms timeout) (notTimeout : result ≠ .error .timeout) :
      BatchEnd batch completionsFirst timeout endsBatch (some result) now
  | failed {e armed now} (fails : batch.FailsBy endsBatch (armed + timeout))
      (rearmed : 0 < armed → batch.Rearms timeout) (notTimeout : e ≠ .timeout) :
      BatchEnd batch completionsFirst timeout endsBatch (some (.error e)) now
  | elapsed {armed now}
      (later : completionsFirst → ∀ entry ∈ batch.entries, ∀ t, entry.2.due = some t →
        t ≤ armed ∨ armed + timeout < t)
      (rearmed : 0 < armed → batch.Rearms timeout) (atDeadline : now = armed + timeout) :
      BatchEnd batch completionsFirst timeout endsBatch (some (.error .timeout)) now

/-- A program that ends its batch so, whichever comes first, keeps to the deadline exactly
for batches that are complete or have failed by then, or in which no completion arms the
timeout again. -/
theorem overallDeadline_iff_of_settles {batch : Batch T E} {timeout : Nat}
    {endsBatch : TaskEnd T E → Prop} {program : RuntimeProgram T E (Option (Result E α))}
    {start : Runtime T E}
    (settles : ∀ completionsFirst, Settles (timed batch.due completionsFirst)
      (fun value final => BatchEnd batch completionsFirst timeout endsBatch value final.now)
      program start) :
    OverallDeadline batch timeout endsBatch program start ↔
      batch.CompleteBy timeout ∨ batch.FailsBy endsBatch timeout ∨ ¬ batch.Rearms timeout := by
  constructor
  · intro keeps
    by_contra neither
    simp only [not_or, not_not] at neither
    obtain ⟨incomplete, unfailed, rearms⟩ := neither
    -- Where completions come first, the timeout is armed again.
    obtain ⟨events, value, final, returns⟩ := (settles True).exists_returns
    obtain ⟨result, rfl, _, inTime⟩ :=
      keeps.post_of_returns (timed_of_completionsFirst returns)
    obtain ⟨rfl, atDeadline⟩ := inTime incomplete unfailed
    cases (settles True).post_of_returns returns with
    | finished _ _ _ notTimeout => exact notTimeout rfl
    | failed _ _ notTimeout => exact notTimeout rfl
    | @elapsed armed _ later _ isDeadline =>
        obtain ⟨entry, member, t, isDue, positive, early⟩ := rearms
        rcases later trivial entry member t isDue with joined | beyond
        · omega
        · omega
  · intro condition
    apply (settles False).mono
    intro value final ends
    cases ends with
    | @finished result armed _ complete succeeded rearmed _ =>
        refine ⟨result, rfl, fun _ => ?_, fun incomplete unfailed => ?_⟩
        · rcases condition with inTime | ⟨entry, member, fails, _⟩ | never
          · exact inTime
          · exact absurd fails (succeeded entry member)
          · have unmoved : armed = 0 := Nat.eq_zero_of_not_pos fun moved => never (rearmed moved)
            intro entry member
            obtain ⟨t, before, isDue⟩ := complete entry member
            exact ⟨t, by omega, isDue⟩
        · have never := (condition.resolve_left incomplete).resolve_left unfailed
          have unmoved : armed = 0 := Nat.eq_zero_of_not_pos fun moved => never (rearmed moved)
          refine absurd (fun entry member => ?_) incomplete
          obtain ⟨t, before, isDue⟩ := complete entry member
          exact ⟨t, by omega, isDue⟩
    | @failed e armed _ fails rearmed _ =>
        refine ⟨_, rfl, nofun, fun incomplete unfailed => ?_⟩
        have never := (condition.resolve_left incomplete).resolve_left unfailed
        have unmoved : armed = 0 := Nat.eq_zero_of_not_pos fun moved => never (rearmed moved)
        rw [unmoved, Nat.zero_add] at fails
        exact absurd fails unfailed
    | @elapsed armed _ _ rearmed isDeadline =>
        refine ⟨_, rfl, nofun, fun incomplete unfailed => ⟨rfl, ?_⟩⟩
        have never := (condition.resolve_left incomplete).resolve_left unfailed
        have unmoved : armed = 0 := Nat.eq_zero_of_not_pos fun moved => never (rearmed moved)
        rw [isDeadline, unmoved, Nat.zero_add]

/-- The head of a loop: the batch goes on, and the timeout is armed now. -/
structure Armed (batch : Batch T E) (timeout : Nat) (endsBatch : TaskEnd T E → Prop) (set : Nat)
    (consumed : List (String × TaskEnd T E)) (here : Runtime T E) : Prop where
  underway : Underway batch.due batch.entries set consumed here
  goesOn : ∀ entry ∈ consumed, ¬ endsBatch entry.2
  rearmed : 0 < here.now → batch.Rearms timeout

variable {batch : Batch T E} {completionsFirst : Prop} {timeout set token : Nat}
  {endsBatch : TaskEnd T E → Prop}
  {consumed : List (String × TaskEnd T E)} {here : Runtime T E}

/-- A call that does not wait leaves the timeout armed now. -/
theorem Armed.steps {op : RuntimeOp T E} {ready : Runtime T E}
    (armed : Armed batch timeout endsBatch set consumed here)
    (immediate : ∀ runtime, ¬ op.Pending runtime)
    (steps : Relation.ReflTransGen (Timed batch.due op) here ready) :
    Armed batch timeout endsBatch set consumed ready where
  underway := armed.underway.steps (fun runtime waits => absurd waits (immediate runtime)) steps
  goesOn := armed.goesOn
  rearmed moved := armed.rearmed (now_of_not_waiting immediate steps ▸ moved)

/-- Everything joined has completed by now, and has not ended the batch. -/
theorem Armed.complete (armed : Armed batch timeout endsBatch set consumed here)
    (all : ∀ entry ∈ batch.entries, ∃ ended, (entry.1, ended) ∈ consumed) :
    batch.CompleteBy here.now ∧ ∀ entry ∈ batch.entries, ¬ endsBatch entry.2.ends := by
  have joined : ∀ entry ∈ batch.entries, ¬ endsBatch entry.2.ends ∧
      ∃ t ≤ here.now, entry.2.due = some t := by
    intro entry member
    obtain ⟨ended, isConsumed⟩ := all entry member
    obtain ⟨rfl, isPast⟩ := armed.underway.of_consumed batch.distinct member isConsumed
    rw [Batch.due_of_mem member] at isPast
    exact ⟨armed.goesOn _ isConsumed, isPast⟩
  exact ⟨fun entry member => (joined entry member).2, fun entry member => (joined entry member).1⟩

/-- What `next_outcome` finds under a timeout armed now. -/
inductive NextOutcome (batch : Batch T E) (completionsFirst : Prop) (timeout set : Nat)
    (consumed : List (String × TaskEnd T E)) (here : Runtime T E) :
    Result E (Option (TaskOutcome T E)) → Runtime T E → Prop where
  | drained {next} (all : ∀ entry ∈ batch.entries, ∃ ended, (entry.1, ended) ∈ consumed) :
      NextOutcome batch completionsFirst timeout set consumed here (.ok none) next
  | joined {entry next}
      (underway : Underway batch.due batch.entries set (consumed ++ [entry]) next)
      (isDue : batch.due entry.1 = some next.now) (inTime : next.now ≤ here.now + timeout) :
      NextOutcome batch completionsFirst timeout set consumed here
        (outcomeOf (some (JoinSet.outcome entry))) next
  | elapsed {next} (later : completionsFirst → ∀ entry ∈ batch.entries,
        (∃ ended, (entry.1, ended) ∈ consumed) ∨ ∀ t, batch.due entry.1 = some t →
          here.now + timeout < t)
      (atDeadline : next.now = here.now + timeout) :
      NextOutcome batch completionsFirst timeout set consumed here (.error .timeout) next

/-- Cancelling and shutting down take no time. -/
theorem stop_timed (due : String → Option Nat) (set token : Nat) (value : α)
    (here : Runtime T E) :
    Settles (timed due completionsFirst)
      (fun returned next => returned = value ∧ next.now = here.now)
      (do
        cancel token
        shutdown set
        return value : RuntimeProgram T E α) here := by
  have immediate : ∀ runtime : Runtime T E, ¬ (RuntimeOp.cancel token).Pending runtime :=
    fun _ => id
  refine Settles.bind
    (perform_timed (.cancel token) ⟨here, (), _, .refl, fun _ => False.elim, rfl⟩ ?_)
  rintro ready _ _ steps _ rfl
  have atReady := now_of_not_waiting immediate steps
  refine Settles.bind (perform_timed (.shutdown set) ⟨_, (), _, .refl, fun _ => False.elim, rfl⟩ ?_)
  rintro later _ _ steps _ rfl
  exact ⟨rfl, (now_of_not_waiting (fun _ => id) steps).trans atReady⟩

/-- The next outcome comes in time, or the timeout does. -/
theorem nextOutcome_timed (armed : Armed batch timeout endsBatch set consumed here) :
    Settles (timed batch.due completionsFirst)
      (NextOutcome batch completionsFirst timeout set consumed here)
      (nextOutcome set token (some timeout)) here := by
  refine Settles.bind (perform_timed (.joinNextTimeout set timeout) ?_ ?_)
  · obtain ⟨ready, steps, ⟨⟨raw, after, polled⟩, inTime⟩ | ⟨pending, settled, atDeadline⟩⟩ :=
      armed.underway.answerable timeout timeout
    · refine ⟨ready, some raw, _, steps, fun _ pending => ?_, inTime, after, polled, rfl⟩
      cases polled.symm.trans pending
    · exact ⟨ready, none, _, steps, fun _ _ => settled, atDeadline, pending, rfl⟩
  · intro ready response next steps settled effect
    have underway := armed.underway.steps (fun _ => id) steps
    cases response with
    | some raw =>
        obtain ⟨inTime, after, polled, rfl⟩ := effect
        rcases underway.joins polled with ⟨rfl, idle, isAll⟩ | ⟨entry, rfl, isDue, joined⟩
        · exact .drained fun entry member => underway.all_consumed idle isAll member
        · exact .joined joined isDue inTime
    | none =>
        obtain ⟨atDeadline, pending, rfl⟩ := effect
        apply (stop_timed batch.due set token _ next).mono
        rintro _ final ⟨rfl, sameTime⟩
        refine .elapsed (fun isFirst entry member => ?_) (sameTime.trans atDeadline)
        rw [← atDeadline]
        exact underway.at_deadline pending (settled isFirst pending) member

/-- A join leaves the timeout armed at the time of the completion. -/
theorem Armed.join (armed : Armed batch timeout endsBatch set consumed here)
    {entry : String × TaskEnd T E} {next : Runtime T E}
    (underway : Underway batch.due batch.entries set (consumed ++ [entry]) next)
    (isDue : batch.due entry.1 = some next.now) (inTime : next.now ≤ here.now + timeout)
    (goesOn : ¬ endsBatch entry.2) :
    Armed batch timeout endsBatch set (consumed ++ [entry]) next := by
  refine ⟨underway, fun other member => ?_, fun moved => ?_⟩
  · rcases List.mem_append.mp member with old | isNew
    · exact armed.goesOn other old
    · rwa [List.mem_singleton.mp isNew]
  · by_cases before : 0 < here.now
    · exact armed.rearmed before
    · obtain ⟨timed, isTask, _, _⟩ := underway.completed entry
        (underway.isFront.subset (List.mem_append_right _ List.mem_cons_self))
      rw [Batch.due_of_mem isTask] at isDue
      exact ⟨_, isTask, _, isDue, moved, by omega⟩

/-- A completion that ends the batch does so before the timeout elapses. -/
theorem Armed.fails {entry : String × TaskEnd T E} {next : Runtime T E}
    (underway : Underway batch.due batch.entries set (consumed ++ [entry]) next)
    (isDue : batch.due entry.1 = some next.now) (inTime : next.now ≤ here.now + timeout)
    (ends : endsBatch entry.2) : batch.FailsBy endsBatch (here.now + timeout) := by
  obtain ⟨timed, isTask, isEnd, _⟩ := underway.completed entry
    (underway.isFront.subset (List.mem_append_right _ List.mem_cons_self))
  rw [Batch.due_of_mem isTask] at isDue
  exact ⟨_, isTask, isEnd ▸ ends, _, inTime, isDue⟩

/-- Once the timeout has elapsed, the batch ends with it. -/
theorem Armed.elapsed (armed : Armed batch timeout endsBatch set consumed here)
    {next : Runtime T E}
    (later : completionsFirst → ∀ entry ∈ batch.entries,
      (∃ ended, (entry.1, ended) ∈ consumed) ∨
        ∀ t, batch.due entry.1 = some t → here.now + timeout < t)
    (atDeadline : next.now = here.now + timeout) :
    BatchEnd (α := α) batch completionsFirst timeout endsBatch (some (.error .timeout))
      next.now := by
  refine .elapsed (fun isFirst entry member t isDue => ?_) armed.rearmed atDeadline
  rw [← Batch.due_of_mem member] at isDue
  rcases later isFirst entry member with ⟨ended, isConsumed⟩ | beyond
  · obtain ⟨_, past, before, isPast⟩ := armed.underway.of_consumed batch.distinct member isConsumed
    rw [Option.some.inj (isDue.symm.trans isPast)]
    exact .inl before
  · exact .inr (beyond t isDue)

/-- The check for cancellation takes no time; where it stops the loop, everything has
been joined. -/
theorem cancelledAndEmpty_timed (armed : Armed batch timeout endsBatch set consumed here) :
    Settles (timed batch.due completionsFirst)
      (fun stops next => Armed batch timeout endsBatch set consumed next ∧
        (stops = true → ∀ entry ∈ batch.entries, ∃ ended, (entry.1, ended) ∈ consumed))
      (cancelledAndEmpty set token) here := by
  refine Settles.bind (perform_timed (.isCancelled token)
    ⟨here, _, _, .refl, fun _ => False.elim, rfl, rfl⟩ ?_)
  rintro ready response _ steps _ ⟨isAnswer, rfl⟩
  have atReady := armed.steps (fun _ => id) steps
  cases response with
  | false => exact ⟨atReady, nofun⟩
  | true =>
      refine perform_timed (.isEmpty set) ⟨_, _, _, .refl, fun _ => False.elim, rfl, rfl⟩ ?_
      rintro _ response later steps _ ⟨rfl, rfl⟩
      have atLater := atReady.steps (fun _ => id) steps
      refine ⟨atLater, fun isEmpty entry member => ?_⟩
      obtain ⟨idle, allJoined⟩ : (later.joinSet set).running = [] ∧
          (later.joinSet set).completed.length ≤ (later.joinSet set).joined := by
        simpa [JoinSet.isEmpty] using isEmpty
      rw [atLater.underway.joined] at allJoined
      have isAll := (atLater.underway.isFront.eq_of_length_le allJoined).symm
      exact atLater.underway.all_consumed idle isAll member

/-- The fail-fast loop, from any head. -/
theorem failFastLoop_timed (fuel : Nat) {results : AList fun _ : String => T}
    (armed : Armed batch timeout failFastEnds set consumed here)
    (enough : batch.entries.length < fuel + consumed.length) :
    Settles (timed batch.due completionsFirst)
      (fun value final => BatchEnd batch completionsFirst timeout failFastEnds value final.now)
      (failFastLoop set token (some timeout) fuel results) here := by
  induction fuel generalizing consumed results here with
  | zero =>
      have bounded := armed.underway.consumed_le
      omega
  | succ fuel ih =>
      apply Settles.seq (nextOutcome_timed armed)
      intro outcome next isNext
      cases isNext with
      | drained all =>
          obtain ⟨complete, succeeded⟩ := armed.complete all
          exact .finished complete succeeded armed.rearmed nofun
      | elapsed later atDeadline => exact armed.elapsed later atDeadline
      | @joined entry _ underway isDue inTime =>
          obtain ⟨name, ended⟩ := entry
          cases ended with
          | aborted e =>
              exact .failed (Armed.fails underway isDue inTime trivial) armed.rearmed nofun
          | returned result =>
              cases result with
              | error e =>
                  apply (stop_timed batch.due set token _ next).mono
                  rintro _ final ⟨rfl, _⟩
                  exact .failed (Armed.fails underway isDue inTime trivial) armed.rearmed nofun
              | ok v =>
                  have atNext := armed.join underway isDue inTime id
                  apply Settles.seq (cancelledAndEmpty_timed atNext)
                  rintro stops later ⟨atLater, whenStopped⟩
                  cases stops with
                  | true =>
                      obtain ⟨complete, succeeded⟩ := atLater.complete (whenStopped rfl)
                      exact .finished complete succeeded atLater.rearmed nofun
                  | false =>
                      refine ih atLater ?_
                      simp only [List.length_append, List.length_singleton]
                      omega

/-- The partial-results loop, from any head. -/
theorem partialLoop_timed (fuel : Nat) {results : PartialResults T E}
    (armed : Armed batch timeout partialEnds set consumed here)
    (enough : batch.entries.length < fuel + consumed.length) :
    Settles (timed batch.due completionsFirst)
      (fun value final => BatchEnd batch completionsFirst timeout partialEnds value final.now)
      (partialLoop set token (some timeout) fuel results) here := by
  induction fuel generalizing consumed results here with
  | zero =>
      have bounded := armed.underway.consumed_le
      omega
  | succ fuel ih =>
      apply Settles.seq (nextOutcome_timed armed)
      intro outcome next isNext
      cases isNext with
      | drained all =>
          obtain ⟨complete, succeeded⟩ := armed.complete all
          exact .finished complete succeeded armed.rearmed nofun
      | elapsed later atDeadline => exact armed.elapsed later atDeadline
      | @joined entry _ underway isDue inTime =>
          obtain ⟨name, ended⟩ := entry
          cases ended with
          | aborted e =>
              exact .failed (Armed.fails underway isDue inTime trivial) armed.rearmed nofun
          | returned result =>
              refine ih (armed.join underway isDue inTime id) ?_
              simp only [List.length_append, List.length_singleton]
              omega

/-- Spawning takes no time, so no task is overdue after it. -/
theorem spawnAll_timed {due : String → Option Nat} {tasks : List (String × TimedTask T E)}
    (rest : List (String × TimedTask T E)) (underway : Underway due tasks set [] here)
    (atStart : here.now = 0) :
    Settles (timed due completionsFirst)
      (fun _ next => Underway due (tasks ++ rest) set [] next ∧ next.now = 0)
      (spawnAll set token (rest.map fun entry => (entry.1, entry.2.task))) here := by
  induction rest generalizing tasks here with
  | nil =>
      rw [List.append_nil]
      exact ⟨underway, atStart⟩
  | cons entry rest ih =>
      obtain ⟨name, timed⟩ := entry
      refine Settles.bind
        (perform_timed (.spawn set _) ⟨here, (), _, .refl, fun _ => False.elim, rfl⟩ ?_)
      rintro ready _ next steps _ rfl
      have atReady := underway.steps (fun _ => False.elim) steps
      have sameTime := (now_of_not_waiting (fun _ => id) steps).trans atStart
      rw [List.append_cons]
      refine ih (atReady.spawn token fun t _ => ?_) sameTime
      rw [sameTime]
      exact Nat.zero_le t

/-- With nothing running nothing happens. -/
theorem eq_of_idle {due : String → Option Nat} {op : RuntimeOp T E} {ready : Runtime T E}
    (idle : ∀ set, (here.joinSet set).running = []) (immediate : ∀ runtime, ¬ op.Pending runtime)
    (steps : Relation.ReflTransGen (Timed due op) here ready) : ready = here := by
  induction steps with
  | refl => rfl
  | tail _ step ih =>
      subst ih
      cases step with
      | tick waits => exact absurd waits (immediate _)
      | @finish set before spawned after ended isRunning => simp [idle set] at isRunning

/-- From a fresh runtime every task is spawned and the timeout armed. -/
theorem armed_timed (batch : Batch T E) (timeout : Nat) (endsBatch : TaskEnd T E → Prop)
    (cancellation : Option Nat) (tokens : Nat) (cancelled : Nat → Bool) :
    Settles (timed batch.due completionsFirst)
      (fun token ready => Settles (timed batch.due completionsFirst)
        (fun set next => Armed batch timeout endsBatch set [] next)
        (spawnTasks batch.tasks token) ready)
      (tokenOrDefault cancellation) (Runtime.fresh tokens cancelled) := by
  have spawns : ∀ (token : Nat) (ready : Runtime T E), (∀ set, ready.joinSet set = {}) →
      ready.now = 0 → Settles (timed batch.due completionsFirst)
        (fun set next => Armed batch timeout endsBatch set [] next)
        (spawnTasks batch.tasks token) ready := by
    intro token ready noTasks atStart
    have idle : ∀ set, (ready.joinSet set).running = [] := fun set => by rw [noTasks]
    refine Settles.bind
      (perform_timed .newSet ⟨ready, _, _, .refl, fun _ => False.elim, rfl, rfl⟩ ?_)
    rintro later set next steps _ ⟨rfl, rfl⟩
    obtain rfl := eq_of_idle idle (fun _ => id) steps
    have atNew : ∀ set, ((later.put later.sets {}).joinSet set) = {} := by
      intro set
      by_cases same : set = later.sets
      · rw [same, Runtime.put_joinSet_self]
      · rw [Runtime.put_joinSet_ne _ _ same, noTasks]
    have underway : Underway batch.due [] later.sets []
        { later.put later.sets {} with sets := later.sets + 1 } := by
      constructor
      all_goals simp only [atNew]
      all_goals simp
    refine Settles.seq (spawnAll_timed batch.entries underway atStart) ?_
    rintro _ final ⟨isUnderway, isStart⟩
    exact ⟨isUnderway, nofun, fun moved => absurd isStart moved.ne'⟩
  cases cancellation with
  | some token => exact spawns token _ (fun _ => rfl) rfl
  | none =>
      refine perform_timed .newToken ⟨_, _, _, .refl, fun _ => False.elim, rfl, rfl⟩ ?_
      rintro ready token next steps _ ⟨rfl, rfl⟩
      obtain rfl := eq_of_idle (fun _ => rfl) (fun _ => id) steps
      exact spawns _ _ (fun _ => rfl) rfl

/-- The two executors over a batch, with a timeout. -/
abbrev failFastWithin (batch : Batch T E) (timeout : Nat) (cancellation : Option Nat) :
    RuntimeProgram T E (Option (Result E (AList fun _ : String => T))) :=
  runFailFast (batch.entries.length + 1)
    { (executeConcurrently batch.tasks).withTimeout timeout with cancellation }

abbrev partialWithin (batch : Batch T E) (timeout : Nat) (cancellation : Option Nat) :
    RuntimeProgram T E (Option (Result E (PartialResults T E))) :=
  runPartial (batch.entries.length + 1)
    { ((executeConcurrently batch.tasks).withTimeout timeout).withPartialResults with cancellation }

/-- A fail-fast batch ends as its tasks' times say. -/
theorem failFastWithin_settles (batch : Batch T E) (timeout : Nat) (cancellation : Option Nat)
    (tokens : Nat) (cancelled : Nat → Bool) :
    Settles (timed batch.due completionsFirst)
      (fun value final => BatchEnd batch completionsFirst timeout failFastEnds value final.now)
      (failFastWithin batch timeout cancellation) (Runtime.fresh tokens cancelled) := by
  refine Settles.bind
    ((armed_timed batch timeout failFastEnds cancellation tokens cancelled).mono ?_)
  intro token ready spawns
  refine Settles.bind (spawns.mono fun set next armed => ?_)
  exact failFastLoop_timed _ armed (by simp)

/-- So does a batch with partial results. -/
theorem partialWithin_settles (batch : Batch T E) (timeout : Nat) (cancellation : Option Nat)
    (tokens : Nat) (cancelled : Nat → Bool) :
    Settles (timed batch.due completionsFirst)
      (fun value final => BatchEnd batch completionsFirst timeout partialEnds value final.now)
      (partialWithin batch timeout cancellation) (Runtime.fresh tokens cancelled) := by
  refine Settles.bind
    ((armed_timed batch timeout partialEnds cancellation tokens cancelled).mono ?_)
  intro token ready spawns
  refine Settles.bind (spawns.mono fun set next armed => ?_)
  exact partialLoop_timed _ armed (by simp)

/-- The timeout of either executor is an overall deadline exactly for batches that are
complete or have failed by then, or in which no task completes after the start and by
then. -/
theorem withTimeout_overall_iff (batch : Batch T E) (timeout : Nat) (cancellation : Option Nat)
    (tokens : Nat) (cancelled : Nat → Bool) :
    (OverallDeadline batch timeout failFastEnds (failFastWithin batch timeout cancellation)
        (Runtime.fresh tokens cancelled) ↔
      batch.CompleteBy timeout ∨ batch.FailsBy failFastEnds timeout ∨ ¬ batch.Rearms timeout) ∧
    (OverallDeadline batch timeout partialEnds (partialWithin batch timeout cancellation)
        (Runtime.fresh tokens cancelled) ↔
      batch.CompleteBy timeout ∨ batch.FailsBy partialEnds timeout ∨ ¬ batch.Rearms timeout) :=
  ⟨overallDeadline_iff_of_settles fun _ =>
      failFastWithin_settles batch timeout cancellation tokens cancelled,
    overallDeadline_iff_of_settles fun _ =>
      partialWithin_settles batch timeout cancellation tokens cancelled⟩

/-- Two tasks, due two time units apart. -/
def twoTasks : Batch Nat String where
  entries := [("a", ⟨some 2, .returned (.ok 0)⟩), ("b", ⟨some 4, .returned (.ok 0)⟩)]
  increasing := by decide

/-- Under a timeout of three units the second of them still completes: it is joined two
units after the first. -/
theorem twoTasks_outlive_timeout :
    ¬ OverallDeadline twoTasks 3 failFastEnds (failFastWithin twoTasks 3 none)
      (Runtime.fresh 0 fun _ => false) ∧
    ¬ OverallDeadline twoTasks 3 partialEnds (partialWithin twoTasks 3 none)
      (Runtime.fresh 0 fun _ => false) := by
  have incomplete : ¬ twoTasks.CompleteBy 3 := by
    intro complete
    obtain ⟨t, early, isDue⟩ := complete ("b", ⟨some 4, .returned (.ok 0)⟩) (by simp [twoTasks])
    cases isDue
    omega
  have rearms : twoTasks.Rearms 3 :=
    ⟨("a", ⟨some 2, .returned (.ok 0)⟩), by simp [twoTasks], 2, rfl, by decide, by decide⟩
  constructor
  · rw [overallDeadline_iff_of_settles fun _ => failFastWithin_settles ..]
    rintro (complete | ⟨entry, member, fails, _⟩ | still)
    · exact incomplete complete
    · simp only [twoTasks, List.mem_cons, List.not_mem_nil, or_false] at member
      rcases member with rfl | rfl <;> exact fails
    · exact still rearms
  · rw [overallDeadline_iff_of_settles fun _ => partialWithin_settles ..]
    rintro (complete | ⟨entry, member, fails, _⟩ | still)
    · exact incomplete complete
    · simp only [twoTasks, List.mem_cons, List.not_mem_nil, or_false] at member
      rcases member with rfl | rfl <;> exact fails
    · exact still rearms

end AltairRs.Concurrent
