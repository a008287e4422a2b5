import AltairRs.Effect.Total
import AltairRs.Retry.Retry

/-!
# The law of the retry loop

The operation has a sequence of outcomes, and its token may be cancelled at any moment.
Throughout the loop the attempts made and the delays left make up the retries that are
allowed; from this follow how often the operation is called and what decides the result.
-/

namespace AltairRs.Retry

open Effect

variable {E T : Type}

/-- The outcomes of the operation, call by call. -/
abbrev Outcomes (E T : Type) := Nat → Except (BoxedError E) T

/-- Whether the token is cancelled by now, and how many calls have been made. -/
structure Moment where
  cancelled : Bool
  calls : Nat := 0
deriving DecidableEq, Repr

/-- A turn of the loop, and what follows a transient error. -/
def turn (config : Config) (attempt : UInt32)
    (onTransient : UInt32 → E → RetryProgram E T (Exit E T)) : RetryProgram E T (Exit E T) := do
  if ← seesCancelled config then
    return .returned (.error (.cancelled config.name))
  else
    match addOne attempt with
    | none => return .overflowed
    | some attempt =>
        match ← call with
        | .ok v => return .returned (.ok v)
        | .error (.permanent inner) => return .returned (.error (.permanent config.name inner))
        | .error (.other e) => onTransient attempt e

/-- Without a delay the retries are exhausted. -/
theorem retryLoop_nil (config : Config) (attempt : UInt32) :
    (retryLoop config attempt [] : RetryProgram E T (Exit E T)) =
      turn config attempt fun attempt e =>
        return .returned (.error (.exhausted config.name attempt (.other e))) := by
  rw [retryLoop]
  rfl

/-- With a delay the loop waits and goes on. -/
theorem retryLoop_cons (config : Config) (attempt : UInt32) (delay : Nat) (rest : List Nat) :
    (retryLoop config attempt (delay :: rest) : RetryProgram E T (Exit E T)) =
      turn config attempt fun attempt _ => do
        match ← backOff config delay with
        | .elapsed => retryLoop config attempt rest
        | .cancelled => return .returned (.error (.cancelled config.name)) := by
  rw [retryLoop]
  rfl

/-- What a request does. A `select!` may see either of its branches first. -/
def RetryOp.Effect (outcomes : Outcomes E T) (here : Moment) : (op : RetryOp) →
    (retrySignature E T).Response op → Moment → Prop
  | .isCancelled, seen, next =>
      next.calls = here.calls ∧ (here.cancelled → seen) ∧ (seen → next.cancelled)
  | .call, outcome, next => outcome = outcomes here.calls ∧ next.calls = here.calls + 1
  | .sleep _, _, next | .sleepOrCancelled _, .elapsed, next => next.calls = here.calls
  | .sleepOrCancelled _, .cancelled, next => next.calls = here.calls ∧ next.cancelled

/-- The operation has these outcomes. The token may be cancelled during any request, and
stays so. -/
def retryWorld (outcomes : Outcomes E T) : World (retrySignature E T) Moment where
  Answers here op response next :=
    (here.cancelled → next.cancelled) ∧ op.Effect outcomes here response next

/-- How often the operation was called. -/
def callsIn (events : List (Event (retrySignature E T))) : Nat :=
  events.countP fun event => event.operation = .call

/-- An outcome after which the operation is called again. -/
def Transient (outcome : Except (BoxedError E) T) : Prop := ∃ e, outcome = .error (.other e)

/-- What the outcomes decide: the first that is not transient, or the last one allowed. -/
inductive Decided (config : Config) (outcomes : Outcomes E T) : Result E T → Prop where
  | success {i v} (allowed : i ≤ config.maxRetries.toNat) (before : ∀ j < i, Transient (outcomes j))
      (isOutcome : outcomes i = .ok v) : Decided config outcomes (.ok v)
  | permanent {i inner} (allowed : i ≤ config.maxRetries.toNat)
      (before : ∀ j < i, Transient (outcomes j))
      (isOutcome : outcomes i = .error (.permanent inner)) :
      Decided config outcomes (.error (.permanent config.name inner))
  | exhausted {attempts e} (before : ∀ j < config.maxRetries.toNat, Transient (outcomes j))
      (isOutcome : outcomes config.maxRetries.toNat = .error (.other e))
      (isCount : attempts.toNat = config.maxRetries.toNat + 1) :
      Decided config outcomes (.error (.exhausted config.name attempts (.other e)))

/-- Nobody has cancelled the token, or there is none. -/
def Undisturbed (config : Config) (here : Moment) : Prop :=
  config.hasToken = false ∨ here.cancelled = false

/-- A result is `Cancelled` only if the token is, and the outcomes decide it if nobody
cancels. -/
def Justified (config : Config) (outcomes : Outcomes E T) (result : Result E T) (final : Moment) :
    Prop :=
  (∀ name, result = .error (.cancelled name) → config.hasToken ∧ final.cancelled) ∧
    (Undisturbed config final → Decided config outcomes result)

/-- What is claimed of every run. -/
structure ObeysLaw (config : Config) (outcomes : Outcomes E T)
    (program : RetryProgram E T (Exit E T)) (start : Moment) : Prop where
  atMost : ∀ events remainder here,
    Reaches (retryWorld outcomes) program start events remainder here →
    callsIn events ≤ config.maxRetries.toNat + 1
  stops : ∀ before after remainder here,
    Reaches (retryWorld outcomes) program start (before ++ ⟨.isCancelled, true⟩ :: after)
      remainder here → callsIn after = 0
  settles : Settles (retryWorld outcomes) (fun value final =>
    ∃ result, value = .returned result ∧ Justified config outcomes result final) program start

/-- Nobody has seen the token cancelled at the head of the loop. -/
def Unseen (history : List (Event (retrySignature E T))) : Prop :=
  (⟨.isCancelled, true⟩ : Event (retrySignature E T)) ∉ history

/-- After the token was seen cancelled, the operation is not called. -/
def StopsCalling (history : List (Event (retrySignature E T))) : Prop :=
  ∀ before after, history = before ++ ⟨.isCancelled, true⟩ :: after → callsIn after = 0

/-- At every cut the calls are counted and within what is allowed. -/
def Counted (config : Config) : Contract (retrySignature E T) Moment where
  Inv history here :=
    callsIn history = here.calls ∧ here.calls ≤ config.maxRetries.toNat + 1 ∧ StopsCalling history

variable {config : Config} {outcomes : Outcomes E T} {here : Moment}
  {history : List (Event (retrySignature E T))}

/-- The calls of a history are those of its parts. -/
theorem callsIn_append (first second : List (Event (retrySignature E T))) :
    callsIn (first ++ second) = callsIn first + callsIn second := List.countP_append

/-- Only a call is counted. -/
theorem RetryOp.Effect.calls_eq {op : RetryOp} {response : (retrySignature E T).Response op}
    {next : Moment} (effect : op.Effect outcomes here response next) :
    next.calls = here.calls + if op = .call then 1 else 0 := by
  cases op with
  | isCancelled => exact effect.1
  | call => exact effect.2
  | sleep delay => exact effect
  | sleepOrCancelled delay =>
      cases response with
      | elapsed => exact effect
      | cancelled => exact effect.1

/-- Where nothing was seen, there is nothing to stop. -/
theorem Unseen.stopsCalling (unseen : Unseen history) : StopsCalling history := by
  rintro before after rfl
  exact absurd (List.mem_append_right _ List.mem_cons_self) unseen

/-- Every request has an answer. -/
theorem retryWorld_answers (outcomes : Outcomes E T) (here : Moment) (op : RetryOp) :
    ∃ response next, (retryWorld outcomes).Answers here op response next := by
  cases op with
  | isCancelled => exact ⟨here.cancelled, here, id, rfl, id, id⟩
  | call => exact ⟨_, ⟨here.cancelled, here.calls + 1⟩, id, rfl, rfl⟩
  | sleep delay => exact ⟨(), here, id, rfl⟩
  | sleepOrCancelled delay => exact ⟨.elapsed, here, id, rfl⟩

/-- A request is added to the history, which still stops calling. -/
theorem Unseen.concat (unseen : Unseen history) (event : Event (retrySignature E T)) :
    StopsCalling (history ++ [event]) := by
  intro before after isSplit
  rcases List.eq_nil_or_concat after with rfl | ⟨front, last, rfl⟩
  · rfl
  · -- The sight would be in the history before.
    rw [List.concat_eq_append, ← List.cons_append, ← List.append_assoc] at isSplit
    obtain ⟨isHistory, _⟩ := List.append_inj' isSplit rfl
    exact absurd (isHistory ▸ List.mem_append_right _ List.mem_cons_self) unseen

/-- One request, while nothing has been seen. -/
theorem perform_safe (op : RetryOp) (inv : (Counted config).Inv history here)
    (unseen : Unseen history) (room : op = .call → here.calls ≤ config.maxRetries.toNat) :
    Safe (retryWorld outcomes) (Counted config)
      (fun response later next => later = history ++ [⟨op, response⟩] ∧
        (retryWorld outcomes).Answers here op response next)
      (Program.perform (retrySignature E T) op) history here := by
  refine ⟨inv, fun response next answer => ⟨trivial, ?_, rfl, answer⟩⟩
  obtain ⟨isCount, within, _⟩ := inv
  have isCalls := answer.2.calls_eq
  refine ⟨?_, ?_, unseen.concat _⟩
  · rw [callsIn_append, isCount, isCalls, callsIn, List.countP_singleton]
    simp only [decide_eq_true_eq]
  · rw [isCalls]
    split
    · exact Nat.succ_le_succ (room ‹_›)
    · exact within

/-- At the head of the loop. -/
theorem seesCancelled_safe (inv : (Counted config).Inv history here) (unseen : Unseen history) :
    Safe (retryWorld outcomes) (Counted config)
      (fun seen later next => next.calls = here.calls ∧
        (seen = false → Unseen later) ∧ (seen = true → config.hasToken ∧ next.cancelled))
      (seesCancelled config) history here := by
  unfold seesCancelled
  cases hasToken : config.hasToken with
  | false => exact ⟨inv, rfl, fun _ => unseen, nofun⟩
  | true =>
      refine (perform_safe .isCancelled inv unseen nofun).mono ?_
      rintro seen _ next ⟨rfl, _, isCalls, _, isSeen⟩ _
      refine ⟨isCalls, ?_, fun wasSeen => ⟨rfl, isSeen wasSeen⟩⟩
      rintro rfl member
      rcases List.mem_append.mp member with before | now
      · exact unseen before
      · cases List.mem_singleton.mp now

/-- Waiting. -/
theorem backOff_safe (delay : Nat) (inv : (Counted config).Inv history here)
    (unseen : Unseen history) :
    Safe (retryWorld outcomes) (Counted config)
      (fun woken later next => next.calls = here.calls ∧ Unseen later ∧
        (woken = .cancelled → config.hasToken ∧ next.cancelled))
      (backOff config delay) history here := by
  have stillUnseen : ∀ {op : RetryOp} {response}, op ≠ .isCancelled →
      Unseen (history ++ [(⟨op, response⟩ : Event (retrySignature E T))]) := by
    intro op response isOther member
    rcases List.mem_append.mp member with before | now
    · exact unseen before
    · exact isOther (congrArg Event.operation (List.mem_singleton.mp now)).symm
  unfold backOff
  cases hasToken : config.hasToken with
  | false =>
      refine (perform_safe (.sleep delay) inv unseen nofun).seq ?_
      rintro _ _ next ⟨rfl, _, isCalls⟩ inv
      exact ⟨inv, isCalls, stillUnseen nofun, nofun⟩
  | true =>
      refine (perform_safe (.sleepOrCancelled delay) inv unseen nofun).mono ?_
      rintro woken _ next ⟨rfl, _, effect⟩ _
      cases woken with
      | elapsed => exact ⟨effect, stillUnseen nofun, nofun⟩
      | cancelled => exact ⟨effect.1, stillUnseen nofun, fun _ => ⟨rfl, effect.2⟩⟩

/-- Where the loop stands before a turn: it has not stopped, and every outcome so far
was transient. -/
structure BeforeTurn (config : Config) (outcomes : Outcomes E T) (attempt : UInt32)
    (history : List (Event (retrySignature E T))) (here : Moment) : Prop where
  inv : (Counted config).Inv history here
  unseen : Unseen history
  isCount : attempt.toNat = here.calls
  room : here.calls ≤ config.maxRetries.toNat
  before : ∀ j < here.calls, Transient (outcomes j)

/-- A run ends justified. -/
def EndsJustified (config : Config) (outcomes : Outcomes E T) (value : Exit E T)
    (_ : List (Event (retrySignature E T))) (final : Moment) : Prop :=
  ∃ result, value = .returned result ∧ Justified config outcomes result final

/-- To return `Cancelled` is justified where the token is. -/
theorem endsJustified_cancelled {final : Moment} (cancelled : config.hasToken ∧ final.cancelled) :
    EndsJustified config outcomes (.returned (.error (.cancelled config.name))) history final := by
  refine ⟨_, rfl, fun _ _ => cancelled, ?_⟩
  rintro (noToken | notCancelled)
  · exact absurd (cancelled.1.symm.trans noToken) nofun
  · exact absurd (cancelled.2.symm.trans notCancelled) nofun

/-- To return what the outcomes decide is justified. -/
theorem endsJustified_decided {result : Result E T} {final : Moment}
    (decided : Decided config outcomes result) :
    EndsJustified config outcomes (.returned result) history final := by
  refine ⟨_, rfl, ?_, fun _ => decided⟩
  rintro name rfl
  cases decided

/-- One turn: it ends the run justified, or the outcome was transient. -/
theorem turn_safe (below : config.maxRetries.toNat < 2 ^ 32 - 1) {attempt : UInt32}
    {onTransient : UInt32 → E → RetryProgram E T (Exit E T)}
    (start : BeforeTurn config outcomes attempt history here)
    (goesOn : ∀ attempt e history next, outcomes here.calls = .error (.other e) →
      attempt.toNat = here.calls + 1 → next.calls = here.calls + 1 → Unseen history →
      (Counted config).Inv history next →
      Safe (retryWorld outcomes) (Counted config) (EndsJustified config outcomes)
        (onTransient attempt e) history next) :
    Safe (retryWorld outcomes) (Counted config) (EndsJustified config outcomes)
      (turn config attempt onTransient) history here := by
  obtain ⟨inv, unseen, isCount, room, before⟩ := start
  unfold turn
  refine (seesCancelled_safe inv unseen).seq ?_
  rintro seen history there ⟨isCalls, notSeen, isSeen⟩ inv
  cases seen with
  | true => exact ⟨inv, endsJustified_cancelled (isSeen rfl)⟩
  | false =>
      have isLess : attempt.toNat + 1 < 2 ^ 32 := by omega
      obtain ⟨next, isNext, isSucc⟩ := addOne_of_lt isLess
      simp only [isNext]
      rw [← isCalls] at isCount room before
      refine (perform_safe .call inv (notSeen rfl) fun _ => room).seq ?_
      rintro outcome _ after ⟨rfl, _, isOutcome, isAfter⟩ inv
      rw [isCalls] at isOutcome isAfter room before
      cases outcome with
      | ok v => exact ⟨inv, endsJustified_decided (.success room before isOutcome.symm)⟩
      | error e =>
          cases e with
          | permanent inner =>
              exact ⟨inv, endsJustified_decided (.permanent room before isOutcome.symm)⟩
          | other e =>
              refine goesOn next e _ after isOutcome.symm (by omega) isAfter ?_ inv
              intro member
              rcases List.mem_append.mp member with earlier | now
              · exact notSeen rfl earlier
              · cases List.mem_singleton.mp now

/-- The loop, while the attempts made and the delays left make up the retries allowed. -/
theorem retryLoop_safe (below : config.maxRetries.toNat < 2 ^ 32 - 1) (delays : List Nat)
    {attempt : UInt32} (start : BeforeTurn config outcomes attempt history here)
    (left : here.calls + delays.length = config.maxRetries.toNat) :
    Safe (retryWorld outcomes) (Counted config) (EndsJustified config outcomes)
      (retryLoop config attempt delays) history here := by
  induction delays generalizing attempt history here with
  | nil =>
      rw [retryLoop_nil]
      refine turn_safe below start ?_
      intro attempt e history next isOutcome isSucc _ _ inv
      have isLast : here.calls = config.maxRetries.toNat := left
      rw [isLast] at isOutcome isSucc
      refine ⟨inv, endsJustified_decided (.exhausted ?_ isOutcome isSucc)⟩
      rw [← isLast]
      exact start.before
  | cons delay rest ih =>
      rw [retryLoop_cons]
      refine turn_safe below start ?_
      intro attempt e history next isOutcome isSucc isNext unseen inv
      refine (backOff_safe delay inv unseen).seq ?_
      rintro woken history after ⟨isAfter, unseen, isCancelled⟩ inv
      cases woken with
      | cancelled => exact ⟨inv, endsJustified_cancelled (isCancelled rfl)⟩
      | elapsed =>
          rw [isNext] at isAfter
          rw [List.length_cons] at left
          refine ih ⟨inv, unseen, isSucc.trans isAfter.symm, by omega, ?_⟩ (by omega)
          intro j earlier
          rw [isAfter] at earlier
          rcases Nat.lt_succ_iff_lt_or_eq.mp earlier with before | rfl
          · exact start.before j before
          · exact ⟨e, isOutcome⟩

/-- Below the largest `u32`, the whole of `retry`. -/
theorem retry_safe (config : Config) (backoff : Backoff config) (isListened : Bool)
    (outcomes : Outcomes E T) (cancelled : Bool)
    (below : config.maxRetries.toNat < 2 ^ 32 - 1) :
    Safe (retryWorld outcomes) (Counted config) (EndsJustified config outcomes)
      (retry config backoff isListened) [] ⟨cancelled, 0⟩ := by
  have isLoop : (retry config backoff isListened : RetryProgram E T (Exit E T)) =
      retryLoop config 0 backoff.delays := by
    refine if_neg fun overflows => ?_
    have isMax := addOne_eq_none_iff.mp overflows.2
    omega
  have start : BeforeTurn config outcomes 0 [] ⟨cancelled, 0⟩ :=
    ⟨⟨rfl, Nat.zero_le _, Unseen.stopsCalling (by exact nofun)⟩, by exact nofun, rfl,
      Nat.zero_le _, by exact nofun⟩
  rw [isLoop]
  apply retryLoop_safe below backoff.delays start
  rw [backoff.length_eq]
  exact Nat.zero_add _

/-- Below the largest `u32`, every run of `retry` obeys the law. -/
theorem retry_law (config : Config) (backoff : Backoff config) (isListened : Bool)
    (outcomes : Outcomes E T) (cancelled : Bool)
    (below : config.maxRetries.toNat < 2 ^ 32 - 1) :
    ObeysLaw config outcomes (retry config backoff isListened) ⟨cancelled, 0⟩ := by
  have safe := retry_safe config backoff isListened outcomes cancelled below
  refine ⟨fun events remainder here run => ?_, fun before after remainder here run => ?_, ?_⟩
  · obtain ⟨isCount, within, _⟩ := safe.inv_of_reaches run
    rw [List.nil_append] at isCount
    rwa [isCount]
  · exact (safe.inv_of_reaches run).2.2 before after rfl
  · exact (Settles.of_safe (retryWorld_answers outcomes) safe).mono fun _ _ ⟨_, ends⟩ => ends

/-- Two retries, and a token. -/
def twoRetries : Config := { name := "two", maxRetries := 2, hasToken := true }

/-- They obey the law on an operation that always fails. -/
theorem retry_law_twoRetries :
    ObeysLaw twoRetries (fun _ => .error (.other "refused") : Outcomes String Nat)
      (retry twoRetries ⟨[100, 150], rfl⟩ true) ⟨false, 0⟩ :=
  retry_law twoRetries ⟨[100, 150], rfl⟩ true _ false (by decide)

end AltairRs.Retry
