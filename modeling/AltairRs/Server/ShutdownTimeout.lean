import Mathlib.Data.Option.Basic
import Mathlib.Data.List.Basic
import AltairRs.Server.Server

/-!
# When the shutdown timeout fires

The timeout is documented to bound the drain after shutdown. It starts with the
server, so it keeps to that only where the difference cannot be seen.
-/

namespace AltairRs.Server

variable {IoError : Type}

/-- The reading at which the shutdown future resolves. -/
def FirstShutdown (schedule : Nat → Instant) (asked : Duration) : Prop :=
  (schedule asked).shutdown ∧ ∀ t < asked, (schedule t).shutdown = false

/-- Shutdown has resolved, and every request accepted until then has finished. -/
def DrainedBy (schedule : Nat → Instant) (deadline : Duration) : Prop :=
  ∃ asked ≤ deadline, FirstShutdown schedule asked ∧
    ∀ t ≤ asked, ∀ duration ∈ (schedule t).requests, ∃ k, duration = some k ∧ t + k ≤ deadline

/-- The documented behaviour: the timeout's error comes no sooner than the timeout
after the shutdown future resolved, and a server that is never asked to shut down
never stops. -/
def TimeoutBoundsDrain (server : Server) (result : Except IoError Unit)
    (schedule : Nat → Instant) : Prop :=
  (∀ readings stopped d,
    (server.run result schedule readings).returned = some (stopped, .error (.shutdownTimeout d)) →
      ∃ asked, (server.run result schedule readings).serve.resolvedAt = some asked ∧
        asked + d ≤ stopped) ∧
  ((∀ t, (schedule t).shutdown = false) →
    ∀ readings, (server.run result schedule readings).returned = none)

/-- What is drained stays drained. -/
theorem DrainedBy.mono {schedule : Nat → Instant} {first second : Duration}
    (drained : DrainedBy schedule first) (later : first ≤ second) : DrainedBy schedule second := by
  obtain ⟨asked, inTime, isFirst, finish⟩ := drained
  refine ⟨asked, Nat.le_trans inTime later, isFirst, fun t accepted duration member => ?_⟩
  obtain ⟨k, isFinite, finished⟩ := finish t accepted duration member
  exact ⟨k, isFinite, Nat.le_trans finished later⟩

/-- There is one first shutdown. -/
theorem FirstShutdown.unique {schedule : Nat → Instant} {first second : Duration}
    (isFirst : FirstShutdown schedule first) (isSecond : FirstShutdown schedule second) :
    first = second := by
  rcases Nat.lt_trichotomy first second with below | same | above
  · exact absurd isFirst.1 (by simp [isSecond.2 first below])
  · exact same
  · exact absurd isSecond.1 (by simp [isFirst.2 second above])

/-- A request accepted before a reading that is still in flight at it. -/
def StillServed (schedule : Nat → Instant) (readings : Nat) (finish : Option Duration) : Prop :=
  ∃ t < readings, (∀ u < t, (schedule u).shutdown = false) ∧
    ∃ duration ∈ (schedule t).requests, finish = duration.map (t + ·) ∧
      running (readings - 1) finish

/-- What the server has in hand after so many readings. -/
structure ServeInvariant (schedule : Nat → Instant) (readings : Nat) (serve : Serve) : Prop where
  resolved : ∀ asked, serve.resolvedAt = some asked →
    asked < readings ∧ FirstShutdown schedule asked
  unresolved : serve.resolvedAt = none → ∀ t < readings, (schedule t).shutdown = false
  inFlight : ∀ finish, finish ∈ serve.inFlight ↔ StillServed schedule readings finish

/-- A request that runs later runs now. -/
theorem running_of_later {first second : Duration} {finish : Option Duration}
    (later : first ≤ second) (isRunning : running second finish) : running first finish := by
  cases finish with
  | none => rfl
  | some finish =>
      simp only [running, Option.all_some, decide_eq_true_eq] at isRunning ⊢
      exact Nat.lt_of_le_of_lt later isRunning

/-- What is still served one reading later was served before or has just come in. -/
theorem stillServed_succ {schedule : Nat → Instant} {readings : Nat} {finish : Option Duration} :
    StillServed schedule (readings + 1) finish ↔ running readings finish ∧
      (StillServed schedule readings finish ∨
        (∀ u < readings, (schedule u).shutdown = false) ∧
          ∃ duration ∈ (schedule readings).requests, finish = duration.map (readings + ·)) := by
  constructor
  · rintro ⟨t, accepted, notAsked, duration, member, rfl, isRunning⟩
    refine ⟨isRunning, ?_⟩
    rcases Nat.lt_succ_iff_lt_or_eq.mp accepted with earlier | rfl
    · exact .inl ⟨t, earlier, notAsked, duration, member, rfl,
        running_of_later (Nat.sub_le _ _) isRunning⟩
    · exact .inr ⟨notAsked, duration, member, rfl⟩
  · rintro ⟨isRunning, ⟨t, accepted, notAsked, duration, member, rfl, _⟩ |
      ⟨notAsked, duration, member, rfl⟩⟩
    · exact ⟨t, Nat.lt_succ_of_lt accepted, notAsked, duration, member, rfl, isRunning⟩
    · exact ⟨readings, Nat.lt_succ_self _, notAsked, duration, member, rfl, isRunning⟩

/-- A reading of the clock keeps the invariant. -/
theorem ServeInvariant.advance {schedule : Nat → Instant} {readings : Nat} {serve : Serve}
    (holds : ServeInvariant schedule readings serve) :
    ServeInvariant schedule (readings + 1) (serve.advance readings (schedule readings)) := by
  cases isResolved : serve.resolvedAt with
  | some asked =>
      obtain ⟨isPast, isFirst⟩ := holds.resolved asked isResolved
      simp only [Serve.advance, isResolved]
      refine ⟨?_, ?_, fun finish => ?_⟩
      · rintro _ ⟨⟩
        exact ⟨Nat.lt_succ_of_lt isPast, isFirst⟩
      · exact nofun
      · -- nothing is accepted any more
        rw [List.mem_filter, holds.inFlight, stillServed_succ, and_comm]
        refine and_congr_right fun _ => (or_iff_left ?_).symm
        rintro ⟨notAsked, _⟩
        simpa [notAsked asked isPast] using isFirst.1
  | none =>
      have notAsked := holds.unresolved isResolved
      simp only [Serve.advance, isResolved]
      refine ⟨?_, ?_, fun finish => ?_⟩
      · intro asked
        simp only
        split_ifs with now
        · rintro ⟨⟩
          exact ⟨Nat.lt_succ_self _, now, notAsked⟩
        · exact nofun
      · intro unresolved t before
        simp only at unresolved
        split_ifs at unresolved with now
        rcases Nat.lt_succ_iff_lt_or_eq.mp before with earlier | rfl
        · exact notAsked t earlier
        · simpa using now
      · rw [List.mem_filter, List.mem_append, holds.inFlight, stillServed_succ, and_comm]
        refine and_congr_right fun _ => or_congr_right ?_
        rw [List.mem_map]
        constructor
        · rintro ⟨duration, member, same⟩
          exact ⟨notAsked, duration, member, same.symm⟩
        · rintro ⟨_, duration, member, same⟩
          exact ⟨duration, member, same.symm⟩

/-- What is served after so many readings, as long as the server runs. -/
def serveAt (schedule : Nat → Instant) : Nat → Serve
  | 0 => {}
  | readings + 1 => (serveAt schedule readings).advance readings (schedule readings)

/-- The invariant holds at every reading. -/
theorem serveInvariant_serveAt (schedule : Nat → Instant) (readings : Nat) :
    ServeInvariant schedule readings (serveAt schedule readings) := by
  induction readings with
  | zero =>
      refine ⟨nofun, fun _ _ below => absurd below (Nat.not_lt_zero _), fun finish => ?_⟩
      exact ⟨nofun, fun served => absurd served.choose_spec.1 (Nat.not_lt_zero _)⟩
  | succ readings ih => exact ih.advance

/-- What the server knows of shutdown is when it was first asked for. -/
theorem resolvedAt_serveAt_iff {schedule : Nat → Instant} {readings : Nat} {asked : Duration} :
    (serveAt schedule readings).resolvedAt = some asked ↔
      asked < readings ∧ FirstShutdown schedule asked := by
  have holds := serveInvariant_serveAt schedule readings
  constructor
  · exact holds.resolved asked
  · rintro ⟨isPast, isFirst⟩
    cases isResolved : (serveAt schedule readings).resolvedAt with
    | none =>
        have notAsked := holds.unresolved isResolved asked isPast
        cases isFirst.1.symm.trans notAsked
    | some other => rw [(holds.resolved other isResolved).2.unique isFirst]

/-- The server is ready exactly when everything has drained. -/
theorem poll_serveAt (result : Except IoError Unit) (schedule : Nat → Instant) (now : Duration)
    [Decidable (DrainedBy schedule now)] :
    (serveAt schedule (now + 1)).poll result =
      if DrainedBy schedule now then some result else none := by
  have holds := serveInvariant_serveAt schedule (now + 1)
  rw [Serve.poll]
  refine if_congr ?_ rfl rfl
  rw [Option.isSome_iff_exists, List.eq_nil_iff_forall_not_mem]
  simp only [holds.inFlight]
  constructor
  · rintro ⟨⟨asked, isResolved⟩, noneLeft⟩
    obtain ⟨isPast, isFirst⟩ := resolvedAt_serveAt_iff.mp isResolved
    refine ⟨asked, Nat.le_of_lt_succ isPast, isFirst, fun t accepted duration member => ?_⟩
    have left := noneLeft (duration.map (t + ·))
    have isOver : running now (duration.map (t + ·)) = false := by
      by_contra isRunning
      exact left ⟨t, Nat.lt_of_le_of_lt accepted isPast,
        fun u before => isFirst.2 u (Nat.lt_of_lt_of_le before accepted), duration, member, rfl,
        by simpa using isRunning⟩
    cases duration with
    | none => cases isOver
    | some k =>
        simp only [running, Option.map_some, Option.all_some, decide_eq_false_iff_not] at isOver
        exact ⟨k, rfl, Nat.le_of_not_lt isOver⟩
  · rintro ⟨asked, inTime, isFirst, finish⟩
    constructor
    · exact ⟨asked, resolvedAt_serveAt_iff.mpr ⟨Nat.lt_succ_of_le inTime, isFirst⟩⟩
    · rintro _ ⟨t, _, notAsked, duration, member, rfl, isRunning⟩
      have accepted : t ≤ asked := by
        by_contra later
        have unasked := notAsked asked (Nat.lt_of_not_le later)
        simpa [unasked] using isFirst.1
      obtain ⟨k, rfl, finished⟩ := finish t accepted duration member
      simp only [running, Option.map_some, Option.all_some, decide_eq_true_eq,
        Nat.add_sub_cancel] at isRunning
      exact absurd isRunning (Nat.not_lt.mpr finished)

variable (server : Server) (result : Except IoError Unit) (schedule : Nat → Instant)

/-- The poll at a reading, as long as the server runs. -/
def polledAt (now : Duration) : Option (Except (Error IoError) Unit) :=
  server.runWithShutdown now ((serveAt schedule (now + 1)).poll result)

variable {server result schedule}

/-- The server goes on exactly while it is not drained and in time. -/
theorem polledAt_eq_none_iff {now : Duration} :
    polledAt server result schedule now = none ↔
      ¬ DrainedBy schedule now ∧ ∀ d, server.shutdownTimeout = some d → now < d := by
  classical
  rw [polledAt, poll_serveAt, Server.runWithShutdown]
  cases server.shutdownTimeout with
  | none => by_cases drained : DrainedBy schedule now <;> simp [drained]
  | some d => by_cases drained : DrainedBy schedule now <;> simp [drained, timeout]

/-- It times out exactly when it is not drained in time. -/
theorem polledAt_eq_timeout_iff {now d : Duration} :
    polledAt server result schedule now = some (.error (.shutdownTimeout d)) ↔
      ¬ DrainedBy schedule now ∧ server.shutdownTimeout = some d ∧ d ≤ now := by
  classical
  have notIo : result.mapError Error.io ≠ .error (.shutdownTimeout d) := by
    cases result <;> exact nofun
  rw [polledAt, poll_serveAt, Server.runWithShutdown]
  cases server.shutdownTimeout with
  | none => by_cases drained : DrainedBy schedule now <;> simp [drained, notIo]
  | some other =>
      by_cases drained : DrainedBy schedule now
      · simp [drained, timeout, notIo]
      · by_cases elapsed : other ≤ now
        · simp only [drained, timeout, elapsed, if_false, if_true, Option.map_some, not_false_iff,
            Option.some.injEq, Except.error.injEq, Error.shutdownTimeout.injEq, true_and]
          exact ⟨fun same => ⟨same, same ▸ elapsed⟩, And.left⟩
        · simp only [drained, timeout, elapsed, if_false, Option.map_none, reduceCtorEq, false_iff]
          rintro ⟨_, ⟨⟩, reached⟩
          exact elapsed reached

/-- A run polls the server until it is ready, and keeps what it returned. -/
structure RunInvariant (server : Server) (result : Except IoError Unit) (schedule : Nat → Instant)
    (readings : Nat) (s : State IoError) : Prop where
  now : s.now = readings
  pending : s.returned = none →
    s.serve = serveAt schedule readings ∧ ∀ t < readings, polledAt server result schedule t = none
  returned : ∀ stopped out, s.returned = some (stopped, out) →
    stopped < readings ∧ s.serve = serveAt schedule (stopped + 1) ∧
      polledAt server result schedule stopped = some out ∧
      ∀ t < stopped, polledAt server result schedule t = none

/-- One more reading. -/
theorem RunInvariant.step {readings : Nat} {s : State IoError}
    (holds : RunInvariant server result schedule readings s) :
    RunInvariant server result schedule (readings + 1)
      (server.step result s (schedule readings)) := by
  rw [Server.step]
  cases isReturned : s.returned with
  | some stop =>
      obtain ⟨stopped, out⟩ := stop
      obtain ⟨before, isServe, isPolled, unready⟩ := holds.returned stopped out isReturned
      refine ⟨congrArg (· + 1) holds.now, nofun, ?_⟩
      rintro _ _ ⟨⟩
      exact ⟨Nat.lt_succ_of_lt before, isServe, isPolled, unready⟩
  | none =>
      obtain ⟨isServe, unready⟩ := holds.pending isReturned
      simp only [holds.now, isServe]
      refine ⟨rfl, fun running => ⟨rfl, ?_⟩, ?_⟩
      · intro t before
        rcases Nat.lt_succ_iff_lt_or_eq.mp before with earlier | rfl
        · exact unready t earlier
        · exact Option.map_eq_none_iff.mp running
      · intro stopped out isReady
        obtain ⟨polled, isPolled, same⟩ := Option.map_eq_some_iff.mp isReady
        obtain ⟨rfl, rfl⟩ := Prod.mk.inj same
        exact ⟨Nat.lt_succ_self _, rfl, isPolled, unready⟩

/-- The invariant holds over every run. -/
theorem runInvariant_run (readings : Nat) :
    RunInvariant server result schedule readings (server.run result schedule readings) := by
  induction readings with
  | zero => exact ⟨rfl, fun _ => ⟨rfl, fun _ below => absurd below (Nat.not_lt_zero _)⟩, nofun⟩
  | succ readings ih => exact ih.step

/-- The server returns at its first poll that is ready. -/
theorem returned_of_first_ready {now : Duration} {out : Except (Error IoError) Unit}
    (isPolled : polledAt server result schedule now = some out)
    (unready : ∀ t < now, polledAt server result schedule t = none) :
    (server.run result schedule (now + 1)).returned = some (now, out) := by
  have holds : RunInvariant server result schedule (now + 1)
      (server.run result schedule (now + 1)) := runInvariant_run (now + 1)
  cases isReturned : (server.run result schedule (now + 1)).returned with
  | none =>
      have pending := (holds.pending isReturned).2 now (Nat.lt_succ_self _)
      cases isPolled.symm.trans pending
  | some stop =>
      obtain ⟨stopped, other⟩ := stop
      obtain ⟨before, _, isReady, _⟩ := holds.returned stopped other isReturned
      rcases Nat.lt_succ_iff_lt_or_eq.mp before with earlier | rfl
      · cases isReady.symm.trans (unready stopped earlier)
      · rw [Option.some.inj (isReady.symm.trans isPolled)]

/-- A server none of whose polls is ready goes on. -/
theorem returned_of_unready (unready : ∀ t, polledAt server result schedule t = none)
    (readings : Nat) : (server.run result schedule readings).returned = none := by
  cases isReturned : (server.run result schedule readings).returned with
  | none => rfl
  | some stop =>
      obtain ⟨_, _, isPolled, _⟩ := (runInvariant_run readings).returned _ _ isReturned
      cases isPolled.symm.trans (unready stop.1)

/-- The timeout stops a server that has not drained when it elapses. -/
theorem returned_of_undrained {d : Duration} (isTimeout : server.shutdownTimeout = some d)
    (undrained : ¬ DrainedBy schedule d) :
    (server.run result schedule (d + 1)).returned = some (d, .error (.shutdownTimeout d)) := by
  apply returned_of_first_ready
  · exact polledAt_eq_timeout_iff.mpr ⟨undrained, isTimeout, Nat.le_refl d⟩
  · intro t before
    rw [polledAt_eq_none_iff]
    refine ⟨fun drained => undrained (drained.mono (Nat.le_of_lt before)), ?_⟩
    rintro other same
    rwa [← Option.some.inj (isTimeout.symm.trans same)]

/-- A server that the timeout has stopped has not drained, and knows of shutdown what
had been asked for by then. -/
theorem of_returned_timeout {readings stopped d : Nat}
    (stops : (server.run result schedule readings).returned =
      some (stopped, .error (.shutdownTimeout d))) :
    (server.run result schedule readings).serve = serveAt schedule (stopped + 1) ∧
      ¬ DrainedBy schedule stopped ∧ server.shutdownTimeout = some d ∧ d ≤ stopped := by
  obtain ⟨_, isServe, isPolled, _⟩ := (runInvariant_run readings).returned _ _ stops
  exact ⟨isServe, polledAt_eq_timeout_iff.mp isPolled⟩

/-- The timeout bounds the drain alone exactly if there is none, or shutdown is asked
for as the server starts, or everything has drained within the timeout of the start. -/
theorem timeoutBoundsDrain_iff (server : Server) (result : Except IoError Unit)
    (schedule : Nat → Instant) :
    TimeoutBoundsDrain server result schedule ↔ ∀ d, server.shutdownTimeout = some d →
      (schedule 0).shutdown = true ∨ DrainedBy schedule d := by
  constructor
  · rintro ⟨inTime, _⟩ d isTimeout
    by_contra neither
    obtain ⟨notAsked, undrained⟩ := not_or.mp neither
    have stops : (server.run result schedule (d + 1)).returned = _ :=
      returned_of_undrained isTimeout undrained
    obtain ⟨asked, isResolved, elapsed⟩ := inTime _ _ _ stops
    rw [(of_returned_timeout stops).1, resolvedAt_serveAt_iff] at isResolved
    have atStart : asked = 0 := by
      rw [← Nat.zero_add d, ← Nat.add_assoc] at elapsed
      exact Nat.le_zero.mp (Nat.le_of_add_le_add_right elapsed)
    exact notAsked (atStart ▸ isResolved.2.1)
  · intro bounded
    constructor
    · intro readings stopped d stops
      obtain ⟨isServe, undrained, isTimeout, elapsed⟩ := of_returned_timeout stops
      have atStart := (bounded d isTimeout).resolve_right fun drained =>
        undrained (drained.mono elapsed)
      refine ⟨0, ?_, by rwa [Nat.zero_add]⟩
      rw [isServe, resolvedAt_serveAt_iff]
      exact ⟨Nat.succ_pos _, atStart, fun _ below => absurd below (Nat.not_lt_zero _)⟩
    · intro notAsked
      have undrained : ∀ now, ¬ DrainedBy schedule now := by
        rintro now ⟨asked, _, isFirst, _⟩
        cases isFirst.1.symm.trans (notAsked asked)
      apply returned_of_unready
      intro now
      rw [polledAt_eq_none_iff]
      refine ⟨undrained now, fun d isTimeout => ?_⟩
      rcases bounded d isTimeout with atStart | drained
      · cases atStart.symm.trans (notAsked 0)
      · exact absurd drained (undrained d)

/-- A server with a timeout of one nanosecond that nobody shuts down stops. -/
theorem neverAsked_stops : ¬ TimeoutBoundsDrain (ServerBuilder.new.withShutdownTimeout 1).build
    (.ok () : Except Empty Unit) fun _ => { shutdown := false, requests := [] } := by
  rintro ⟨_, stays⟩
  have stopped := stays (fun _ => rfl) 2
  revert stopped
  exact nofun

end AltairRs.Server
