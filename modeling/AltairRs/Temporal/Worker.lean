import Mathlib.Algebra.Order.Group.Nat
import AltairRs.Run.Polling
import AltairRs.Server.Server

/-!
# The worker

`run_with_shutdown` polls the SDK's run future until shutdown is requested, and then the
same future inside a timeout. Durations and the clock count nanoseconds, the clock from the
first poll. Whatever
the SDK does, shutdown is over within the drain deadline after it was requested.
-/

namespace AltairRs.Temporal

open Server (timeout Elapsed)

/-- `altair_temporal::Error`, as far as a running worker goes. -/
inductive WorkerError where
  | worker (source : String)
deriving DecidableEq, Repr

/-- `Config`, as far as draining goes. -/
structure WorkerConfig where
  shutdownGrace : Nat := 30 * 10 ^ 9
deriving DecidableEq, Repr

/-- `Worker`, as far as draining goes. -/
structure Worker where
  drainDeadline : Nat
deriving DecidableEq, Repr

/-- The worker that `WorkerBuilder::build` makes of a configuration. -/
def WorkerConfig.build (config : WorkerConfig) : Worker where
  drainDeadline := config.shutdownGrace + 30 * 10 ^ 9

/-- The run future of the SDK: what a poll comes to, given when the handle of its shutdown
was called. An error is the text it is formatted to. -/
abbrev SdkRun := Option Nat → Nat → Option (Except String Unit)

/-- When the signals of the process resolve: an interrupt, and a termination if its handler
could be installed. -/
structure Signals where
  ctrlC : Nat → Bool
  terminate : Option (Nat → Bool)

/-- A poll of `shutdown_signal`. -/
def shutdownSignal (signals : Signals) (now : Nat) : Bool :=
  match signals.terminate with
  | some terminate => signals.ctrlC now || terminate now
  | none => signals.ctrlC now

namespace Worker

variable (self : Worker) (sdk : SdkRun) (shutdown : Nat → Bool)

/-- A poll of the drain, whose timeout started when shutdown was requested. -/
def drain (asked now : Nat) : Option (Except WorkerError Unit) :=
  (timeout self.drainDeadline (now - asked) (sdk (some asked) now)).map fun
    | .ok res => res.mapError WorkerError.worker
    | .error Elapsed.elapsed => .ok ()

/-- A poll of `run_with_shutdown`, which keeps when it called the shutdown handle. The run
future is polled before the shutdown future, and the drain as soon as that resolves. -/
def poll (now : Nat) : Option Nat → Option Nat × Option (Except WorkerError Unit)
  | none =>
      match sdk none now with
      | some res => (none, some (res.mapError WorkerError.worker))
      | none => if shutdown now then (some now, self.drain sdk now now) else (none, none)
  | some asked => (some asked, self.drain sdk asked now)

/-- `Worker::run_with_shutdown`. -/
def runWithShutdown : Run.Future (Option Nat) (Except WorkerError Unit) where
  start := none
  poll := self.poll sdk shutdown

/-- `Worker::run`. -/
def run (signals : Signals) : Run.Future (Option Nat) (Except WorkerError Unit) :=
  self.runWithShutdown sdk (shutdownSignal signals)

end Worker

/-- The reading at which shutdown is requested. -/
def FirstAsked (shutdown : Nat → Bool) (asked : Nat) : Prop :=
  shutdown asked = true ∧ ∀ t < asked, shutdown t = false

/-- There is one first time. -/
theorem FirstAsked.unique {shutdown : Nat → Bool} {first second : Nat}
    (isFirst : FirstAsked shutdown first) (isSecond : FirstAsked shutdown second) :
    first = second := by
  rcases Nat.lt_trichotomy first second with below | same | above
  · cases isFirst.1.symm.trans (isSecond.2 first below)
  · exact same
  · cases isSecond.1.symm.trans (isFirst.2 second above)

/-- How a worker ends, by what the SDK's run future comes to: by itself, before shutdown was
requested; drained within the deadline; or dropped at the deadline, as a success. -/
inductive Ends (worker : Worker) (sdk : SdkRun) (shutdown : Nat → Bool) :
    Nat → Except WorkerError Unit → Prop where
  | alone {now res} (notAsked : ∀ t < now, shutdown t = false)
      (unready : ∀ t < now, sdk none t = none) (ready : sdk none now = some res) :
      Ends worker sdk shutdown now (res.mapError WorkerError.worker)
  | drained {asked now res} (isAsked : FirstAsked shutdown asked)
      (running : ∀ t ≤ asked, sdk none t = none) (later : asked ≤ now)
      (unready : ∀ t, asked ≤ t → t < now → sdk (some asked) t = none)
      (ready : sdk (some asked) now = some res) (inTime : now ≤ asked + worker.drainDeadline) :
      Ends worker sdk shutdown now (res.mapError WorkerError.worker)
  | dropped {asked} (isAsked : FirstAsked shutdown asked)
      (running : ∀ t ≤ asked, sdk none t = none)
      (unready : ∀ t, asked ≤ t → t ≤ asked + worker.drainDeadline → sdk (some asked) t = none) :
      Ends worker sdk shutdown (asked + worker.drainDeadline) (.ok ())

variable {worker : Worker} {sdk : SdkRun} {shutdown : Nat → Bool} {now asked : Nat}
  {state : Option Nat} {value : Except WorkerError Unit}

/-- Where a worker stands that has not ended: it runs, or it has been draining since it was
asked to. -/
inductive Stands (worker : Worker) (sdk : SdkRun) (shutdown : Nat → Bool) (now : Nat) :
    Option Nat → Prop where
  | running (notAsked : ∀ t < now, shutdown t = false) (unready : ∀ t < now, sdk none t = none) :
      Stands worker sdk shutdown now none
  | draining {asked : Nat} (past : asked < now) (isAsked : FirstAsked shutdown asked)
      (running : ∀ t ≤ asked, sdk none t = none)
      (unready : ∀ t, asked ≤ t → t < now →
        sdk (some asked) t = none ∧ t < asked + worker.drainDeadline) :
      Stands worker sdk shutdown now (some asked)

/-- A drain goes on until the SDK is ready or the deadline has come. -/
theorem drain_eq_none_iff (later : asked ≤ now) : worker.drain sdk asked now = none ↔
    sdk (some asked) now = none ∧ now < asked + worker.drainDeadline := by
  unfold Worker.drain timeout
  cases sdk (some asked) now with
  | some res => simp
  | none =>
      by_cases elapsed : worker.drainDeadline ≤ now - asked
      · simp only [if_pos elapsed, Option.map_some, reduceCtorEq, true_and, false_iff]
        omega
      · simp only [if_neg elapsed, Option.map_none, true_and, true_iff]
        omega

/-- It ends with what the SDK comes to, or at the deadline. -/
theorem drain_eq_some_iff (later : asked ≤ now) : worker.drain sdk asked now = some value ↔
    (∃ res, sdk (some asked) now = some res ∧ value = res.mapError WorkerError.worker) ∨
      sdk (some asked) now = none ∧ asked + worker.drainDeadline ≤ now ∧ value = .ok () := by
  unfold Worker.drain timeout
  cases sdk (some asked) now with
  | some res => simp [eq_comm]
  | none =>
      by_cases elapsed : worker.drainDeadline ≤ now - asked
      · have reached : asked + worker.drainDeadline ≤ now := by omega
        simp [if_pos elapsed, reached, eq_comm]
      · have early : ¬ asked + worker.drainDeadline ≤ now := by omega
        simp [if_neg elapsed, early]

/-- A worker that runs goes on running until it is asked to stop. -/
theorem pending_of_running (notAsked : ∀ t < now, shutdown t = false)
    (unready : ∀ t < now, sdk none t = none) :
    (worker.runWithShutdown sdk shutdown).Pending now none := by
  induction now with
  | zero => exact .start
  | succ now ih =>
      have before := ih (fun t below => notAsked t (Nat.lt_succ_of_lt below))
        fun t below => unready t (Nat.lt_succ_of_lt below)
      refine .poll before ?_
      change worker.poll sdk shutdown now none = (none, none)
      simp [Worker.poll, unready now (Nat.lt_succ_self _), notAsked now (Nat.lt_succ_self _)]

/-- A worker that has been asked to stop goes on draining. -/
theorem pending_of_draining (past : asked < now) (isAsked : FirstAsked shutdown asked)
    (running : ∀ t ≤ asked, sdk none t = none)
    (unready : ∀ t, asked ≤ t → t < now →
      sdk (some asked) t = none ∧ t < asked + worker.drainDeadline) :
    (worker.runWithShutdown sdk shutdown).Pending now (some asked) := by
  induction now, past using Nat.le_induction with
  | base =>
      have before : (worker.runWithShutdown sdk shutdown).Pending asked none :=
        pending_of_running isAsked.2 fun t below => running t below.le
      have goesOn := (drain_eq_none_iff le_rfl).mpr (unready asked le_rfl (Nat.lt_succ_self _))
      refine .poll before ?_
      change worker.poll sdk shutdown asked none = (some asked, none)
      simp [Worker.poll, running asked le_rfl, isAsked.1, goesOn]
  | succ now past ih =>
      have before := ih fun t after below => unready t after (Nat.lt_succ_of_lt below)
      have goesOn := (drain_eq_none_iff (Nat.le_of_succ_le past)).mpr
        (unready now (Nat.le_of_succ_le past) (Nat.lt_succ_self _))
      refine .poll before ?_
      change worker.poll sdk shutdown now (some asked) = (some asked, none)
      rw [Worker.poll, goesOn]

/-- A worker that has not ended runs or drains. -/
theorem pending_iff_stands :
    (worker.runWithShutdown sdk shutdown).Pending now state ↔
      Stands worker sdk shutdown now state := by
  constructor
  · intro pending
    induction pending with
    | start => exact .running nofun nofun
    | @poll now state next _ isPoll ih =>
        have isNext : worker.poll sdk shutdown now state = (next, none) := isPoll
        cases ih with
        | running notAsked unready =>
            rw [Worker.poll] at isNext
            cases isReady : sdk none now with
            | some res =>
                rw [isReady] at isNext
                cases isNext
            | none =>
                have stillUnready : ∀ t ≤ now, sdk none t = none := fun t within =>
                  (Nat.lt_or_eq_of_le within).elim (unready t) fun same => same ▸ isReady
                rw [isReady] at isNext
                cases isAsked : shutdown now with
                | true =>
                    rw [isAsked] at isNext
                    obtain ⟨rfl, goesOn⟩ := Prod.mk.inj isNext
                    refine .draining (Nat.lt_succ_self _) ⟨isAsked, notAsked⟩ stillUnready ?_
                    intro t after below
                    obtain rfl : now = t := le_antisymm after (Nat.le_of_lt_succ below)
                    exact (drain_eq_none_iff le_rfl).mp goesOn
                | false =>
                    rw [isAsked] at isNext
                    obtain ⟨rfl, -⟩ := Prod.mk.inj isNext
                    refine .running (fun t below => ?_) fun t below => ?_
                    · rcases Nat.lt_succ_iff_lt_or_eq.mp below with earlier | rfl
                      · exact notAsked t earlier
                      · exact isAsked
                    · exact stillUnready t (Nat.le_of_lt_succ below)
        | @draining asked past isAsked running unready =>
            obtain ⟨rfl, goesOn⟩ := Prod.mk.inj isNext
            refine .draining (Nat.lt_succ_of_lt past) isAsked running fun t after below => ?_
            rcases Nat.lt_succ_iff_lt_or_eq.mp below with earlier | rfl
            · exact unready t after earlier
            · exact (drain_eq_none_iff after).mp goesOn
  · rintro (⟨notAsked, unready⟩ | ⟨past, isAsked, running, unready⟩)
    · exact pending_of_running notAsked unready
    · exact pending_of_draining past isAsked running unready

/-- A worker that drains polls its drain, also where it is just asked to stop. -/
theorem exists_stands_of_draining (later : asked ≤ now) (isAsked : FirstAsked shutdown asked)
    (running : ∀ t ≤ asked, sdk none t = none)
    (unready : ∀ t, asked ≤ t → t < now →
      sdk (some asked) t = none ∧ t < asked + worker.drainDeadline) :
    ∃ state, Stands worker sdk shutdown now state ∧
      (worker.poll sdk shutdown now state).2 = worker.drain sdk asked now := by
  rcases Nat.lt_or_eq_of_le later with past | rfl
  · exact ⟨some asked, .draining past isAsked running unready, rfl⟩
  · refine ⟨none, .running isAsked.2 fun t below => running t below.le, ?_⟩
    simp [Worker.poll, running asked le_rfl, isAsked.1]

/-- A drain that is over ends the worker in time. -/
theorem ends_of_drain (later : asked ≤ now) (isAsked : FirstAsked shutdown asked)
    (running : ∀ t ≤ asked, sdk none t = none)
    (unready : ∀ t, asked ≤ t → t < now →
      sdk (some asked) t = none ∧ t < asked + worker.drainDeadline)
    (ready : worker.drain sdk asked now = some value) : Ends worker sdk shutdown now value := by
  have inTime : now ≤ asked + worker.drainDeadline := by
    rcases Nat.lt_or_eq_of_le later with past | rfl
    · have before := (unready (now - 1) (by omega) (by omega)).2
      omega
    · exact Nat.le_add_right _ _
  rcases (drain_eq_some_iff later).mp ready with ⟨res, isReady, rfl⟩ | ⟨notReady, reached, rfl⟩
  · exact .drained isAsked running later (fun t after below => (unready t after below).1) isReady
      inTime
  · obtain rfl : now = asked + worker.drainDeadline := le_antisymm inTime reached
    refine .dropped isAsked running fun t after within => ?_
    rcases Nat.lt_or_eq_of_le within with below | rfl
    · exact (unready t after below).1
    · exact notReady

/-- The poll that is ready ends the worker. -/
theorem exists_stands_iff_ends :
    (∃ state, Stands worker sdk shutdown now state ∧
      (worker.poll sdk shutdown now state).2 = some value) ↔
      Ends worker sdk shutdown now value := by
  constructor
  · rintro ⟨state, stands, isReady⟩
    cases stands with
    | running notAsked unready =>
        rw [Worker.poll] at isReady
        cases ready : sdk none now with
        | some res =>
            rw [ready] at isReady
            cases isReady
            exact .alone notAsked unready ready
        | none =>
            have stillUnready : ∀ t ≤ now, sdk none t = none := fun t within =>
              (Nat.lt_or_eq_of_le within).elim (unready t) fun same => same ▸ ready
            rw [ready] at isReady
            cases isAsked : shutdown now with
            | false =>
                rw [isAsked] at isReady
                cases isReady
            | true =>
                rw [isAsked] at isReady
                exact ends_of_drain le_rfl ⟨isAsked, notAsked⟩ stillUnready
                  (fun t after below => absurd after below.not_ge) isReady
    | @draining asked past isAsked running unready =>
        exact ends_of_drain past.le isAsked running unready isReady
  · rintro (⟨notAsked, unready, ready⟩ |
      @⟨asked, _, res, isAsked, running, later, unready, ready, inTime⟩ |
      @⟨asked, isAsked, running, unready⟩)
    · refine ⟨none, .running notAsked unready, ?_⟩
      rw [Worker.poll, ready]
    · obtain ⟨state, stands, isPoll⟩ := exists_stands_of_draining later isAsked running
        fun t after below => ⟨unready t after below, Nat.lt_of_lt_of_le below inTime⟩
      refine ⟨state, stands, isPoll.trans ?_⟩
      exact (drain_eq_some_iff later).mpr (.inl ⟨res, ready, rfl⟩)
    · have later := Nat.le_add_right asked worker.drainDeadline
      obtain ⟨state, stands, isPoll⟩ := exists_stands_of_draining later isAsked running
        fun t after below => ⟨unready t after below.le, below⟩
      refine ⟨state, stands, isPoll.trans ?_⟩
      exact (drain_eq_some_iff later).mpr (.inr ⟨unready _ later le_rfl, le_rfl, rfl⟩)

/-- A worker returns exactly as it ends, and once shutdown is requested it has returned
when the drain deadline has passed since, whatever the SDK does. -/
theorem runWithShutdown_bounded (worker : Worker) (sdk : SdkRun) (shutdown : Nat → Bool) :
    (∀ readings now value,
      ((worker.runWithShutdown sdk shutdown).run readings).2 = some (now, value) ↔
        now < readings ∧ Ends worker sdk shutdown now value) ∧
    ∀ asked, FirstAsked shutdown asked → ∃ now value, now ≤ asked + worker.drainDeadline ∧
      ((worker.runWithShutdown sdk shutdown).run (asked + worker.drainDeadline + 1)).2 =
        some (now, value) := by
  constructor
  · intro readings now value
    rw [Run.Future.returned_iff, ← exists_stands_iff_ends]
    simp only [pending_iff_stands]
    rfl
  · intro asked isAsked
    rcases (worker.runWithShutdown sdk shutdown).pending_or_returned
      (asked + worker.drainDeadline + 1) with ⟨state, pending⟩ | ⟨now, value, returned⟩
    · exfalso
      cases pending_iff_stands.mp pending with
      | running notAsked =>
          have contrary := notAsked asked (by omega)
          cases isAsked.1.symm.trans contrary
      | @draining other past isOther running unready =>
          obtain rfl := isOther.unique isAsked
          have contrary := (unready (other + worker.drainDeadline) (by omega) (by omega)).2
          omega
    · have below := (Run.Future.returned_iff.mp returned).1
      exact ⟨now, value, Nat.le_of_lt_succ below, returned⟩

/-- A worker whose SDK never stops, interrupted at the fifth reading. -/
theorem runWithShutdown_bounded_interrupted : ∃ now value, now ≤ 5 + 60 * 10 ^ 9 ∧
    ((({} : WorkerConfig).build.run (fun _ _ => none) ⟨(· == 5), none⟩).run
      (5 + 60 * 10 ^ 9 + 1)).2 = some (now, value) :=
  (runWithShutdown_bounded ({} : WorkerConfig).build _ (shutdownSignal ⟨(· == 5), none⟩)).2 5
    ⟨by decide, by decide⟩

end AltairRs.Temporal
