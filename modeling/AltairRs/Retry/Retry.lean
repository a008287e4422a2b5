import Mathlib.Algebra.Group.Nat.Defs
import AltairRs.Effect.Program

/-!
# Retrying an operation

The configuration with its builder, and `retry`. Looking at the token, calling the
operation and waiting are the requests of `retrySignature`; the delays of the backoff
are given. An addition of two `u32` may overflow, which ends a run as a debug build
does.
-/

namespace AltairRs.Retry

open Effect

/-- An `f64`, which is only compared here. -/
inductive F64 where
  | nan
  | infinite (isNegative : Bool)
  | finite (value : Rat)
deriving DecidableEq, Repr

/-- `f64::is_finite`. -/
def F64.isFinite : F64 → Bool
  | .finite _ => true
  | .nan | .infinite _ => false

/-- The comparison `self > 0.0`. -/
def F64.isPositive : F64 → Bool
  | .nan => false
  | .infinite isNegative => !isNegative
  | .finite value => 0 < value

/-- `altair_retry::Config`. Durations count nanoseconds; of the token only its presence
matters, as a run reads it through requests. -/
structure Config where
  name : String := "unnamed"
  maxRetries : UInt32 := 5
  initialInterval : Nat := 100 * 1000000
  maxInterval : Nat := 30 * 1000000000
  multiplier : F64 := .finite 1.5
  jitter : Bool := true
  hasToken : Bool := false
deriving DecidableEq, Repr

/-- The assertions of `ConfigBuilder::build`, with what their messages show. -/
inductive BuildPanic where
  | multiplier (got : F64)
  | intervals (initial max : Nat)
deriving DecidableEq, Repr

/-- `ConfigBuilder`, which wraps the `Config` it builds. -/
structure ConfigBuilder where
  inner : Config := {}
deriving DecidableEq, Repr

namespace ConfigBuilder

variable (builder : ConfigBuilder)

def name (name : String) : ConfigBuilder := { builder with inner.name := name }

def maxRetries (n : UInt32) : ConfigBuilder := { builder with inner.maxRetries := n }

def initialInterval (duration : Nat) : ConfigBuilder :=
  { builder with inner.initialInterval := duration }

def maxInterval (duration : Nat) : ConfigBuilder := { builder with inner.maxInterval := duration }

def multiplier (factor : F64) : ConfigBuilder := { builder with inner.multiplier := factor }

def jitter (isOn : Bool) : ConfigBuilder := { builder with inner.jitter := isOn }

/-- `ConfigBuilder::build`. -/
def build : Except BuildPanic Config :=
  if ¬ (builder.inner.multiplier.isFinite ∧ builder.inner.multiplier.isPositive) then
    .error (.multiplier builder.inner.multiplier)
  else if ¬ builder.inner.initialInterval ≤ builder.inner.maxInterval then
    .error (.intervals builder.inner.initialInterval builder.inner.maxInterval)
  else
    .ok builder.inner

end ConfigBuilder

/-- What a built backoff yields before it ends: as many delays as the retries it was
built with. -/
structure Backoff (config : Config) where
  delays : List Nat
  length_eq : delays.length = config.maxRetries.toNat

/-- A boxed error, which may be a `PermanentError` with the error it wraps. -/
inductive BoxedError (E : Type) where
  | permanent (inner : BoxedError E)
  | other (error : E)
deriving DecidableEq, Repr

/-- `altair_retry::Error`. -/
inductive Error (E : Type) where
  | exhausted (name : String) (attempts : UInt32) (source : BoxedError E)
  | permanent (name : String) (source : BoxedError E)
  | cancelled (name : String)
deriving DecidableEq, Repr

/-- The crate's result alias. -/
abbrev Result (E T : Type) := Except (Error E) T

/-- What ended a wait. -/
inductive Woken where
  | elapsed
  | cancelled
deriving DecidableEq, Repr

/-- What `retry` asks for. -/
inductive RetryOp where
  | isCancelled
  | call
  | sleep (delay : Nat)
  | sleepOrCancelled (delay : Nat)
deriving DecidableEq, Repr

/-- A call is awaited, and so answers with the outcome of the operation. -/
abbrev retrySignature (E T : Type) : Signature where
  Op := RetryOp
  Response
    | .isCancelled => Bool
    | .call => Except (BoxedError E) T
    | .sleep _ => Unit
    | .sleepOrCancelled _ => Woken

abbrev RetryProgram (E T α : Type) := Program (retrySignature E T) α

variable {E T : Type}

def isCancelled : RetryProgram E T Bool :=
  Program.perform (retrySignature E T) .isCancelled

def call : RetryProgram E T (Except (BoxedError E) T) :=
  Program.perform (retrySignature E T) .call

def sleep (delay : Nat) : RetryProgram E T Unit :=
  Program.perform (retrySignature E T) (.sleep delay)

def sleepOrCancelled (delay : Nat) : RetryProgram E T Woken :=
  Program.perform (retrySignature E T) (.sleepOrCancelled delay)

/-- How a run ends: with a result, or at an addition that overflows. -/
inductive Exit (E T : Type) where
  | returned (result : Result E T)
  | overflowed

/-- Add one to a `u32`, if there is room. -/
def addOne (count : UInt32) : Option UInt32 :=
  if count.toNat + 1 < 2 ^ 32 then some (count + 1) else none

/-- The check at the head of the loop. -/
def seesCancelled (config : Config) : RetryProgram E T Bool :=
  if config.hasToken then isCancelled else return false

/-- The wait before the next attempt: a `select!` if there is a token. -/
def backOff (config : Config) (delay : Nat) : RetryProgram E T Woken :=
  if config.hasToken then
    sleepOrCancelled delay
  else do
    sleep delay
    return .elapsed

/-- The loop of `retry`, with the attempts made and the delays left. -/
def retryLoop (config : Config) (attempt : UInt32) (delays : List Nat) :
    RetryProgram E T (Exit E T) := do
  if ← seesCancelled config then
    return .returned (.error (.cancelled config.name))
  else
    match addOne attempt with
    | none => return .overflowed
    | some attempt =>
        match ← call with
        | .ok v => return .returned (.ok v)
        | .error (.permanent inner) => return .returned (.error (.permanent config.name inner))
        | .error (.other e) =>
            match delays with
            | [] => return .returned (.error (.exhausted config.name attempt (.other e)))
            | delay :: rest =>
                match ← backOff config delay with
                | .elapsed => retryLoop config attempt rest
                | .cancelled => return .returned (.error (.cancelled config.name))

/-- `retry`. The fields of its span are only computed if somebody listens to it. -/
def retry (config : Config) (backoff : Backoff config) (isListened : Bool) :
    RetryProgram E T (Exit E T) :=
  if isListened ∧ addOne config.maxRetries = none then
    return .overflowed
  else
    retryLoop config 0 backoff.delays

/-- A counter below its maximum can be raised. -/
theorem addOne_of_lt {count : UInt32} (isLess : count.toNat + 1 < 2 ^ 32) :
    ∃ next, addOne count = some next ∧ next.toNat = count.toNat + 1 := by
  refine ⟨count + 1, if_pos isLess, ?_⟩
  rw [UInt32.toNat_add]
  exact Nat.mod_eq_of_lt isLess

/-- Only the largest counter cannot be raised. -/
theorem addOne_eq_none_iff {count : UInt32} : addOne count = none ↔ count.toNat = 2 ^ 32 - 1 := by
  have bound := count.toNat_lt
  unfold addOne
  by_cases isLess : count.toNat + 1 < 2 ^ 32
  · rw [if_pos isLess]
    exact ⟨nofun, fun isMax => by omega⟩
  · rw [if_neg isLess]
    exact ⟨fun _ => by omega, fun _ => rfl⟩

/-- A builder is accepted as it is. -/
theorem ConfigBuilder.build_eq_ok_iff {builder : ConfigBuilder} {config : Config} :
    builder.build = .ok config ↔
      builder.inner = config ∧ config.multiplier.isFinite ∧ config.multiplier.isPositive ∧
        config.initialInterval ≤ config.maxInterval := by
  unfold build
  split
  · rename_i refused
    exact ⟨nofun, fun ⟨same, accepted⟩ => absurd ⟨accepted.1, accepted.2.1⟩ (same ▸ refused)⟩
  · split
    · rename_i refused
      exact ⟨nofun, fun ⟨same, accepted⟩ => absurd accepted.2.2 (same ▸ refused)⟩
    · rename_i multiplier intervals
      constructor
      · intro built
        cases built
        exact ⟨rfl, (Classical.not_not.mp multiplier).1, (Classical.not_not.mp multiplier).2,
          Classical.not_not.mp intervals⟩
      · rintro ⟨same, _⟩
        exact congrArg Except.ok same

/-- The defaults pass the assertions. -/
theorem default_builds : ({} : ConfigBuilder).build = .ok {} := by
  have isPositive : (F64.finite 1.5).isPositive = true := by decide +kernel
  exact ConfigBuilder.build_eq_ok_iff.mpr ⟨rfl, rfl, isPositive, by decide⟩

end AltairRs.Retry
