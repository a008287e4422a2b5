import AltairRs.Retry.RetryLaw

/-!
# The counters of a retry

Two additions of the loop may overflow: the attempts a span announces, and the attempt
counter. The builder admits every `u32` as the number of retries. Up to the largest but
one neither addition overflows in any run; with the largest both do.
-/

namespace AltairRs.Retry

open Effect

/-- No run of any operation ends at an addition that overflows. -/
def NeverOverflows (config : Config) (isListened : Bool) : Prop :=
  ∀ (E T : Type) (backoff : Backoff config) (outcomes : Outcomes E T) (cancelled : Bool) events
    final,
    ¬ Returns (retryWorld outcomes) (retry config backoff isListened) ⟨cancelled, 0⟩ events
      .overflowed final

/-- An operation that always fails, with an error that is not permanent. -/
def alwaysFails : Outcomes Unit Unit := fun _ => .error (.other ())

/-- The world of that operation. -/
abbrev failing : World (retrySignature Unit Unit) Moment := retryWorld alwaysFails

/-- Nobody need have cancelled the token at the head of the loop. -/
theorem seesCancelled_returns (config : Config) (calls : Nat) :
    ∃ events,
      Returns failing (seesCancelled config) ⟨false, calls⟩ events false ⟨false, calls⟩ := by
  unfold seesCancelled
  cases config.hasToken with
  | false => exact ⟨_, .refl⟩
  | true =>
      have answer : failing.Answers ⟨false, calls⟩ .isCancelled false ⟨false, calls⟩ :=
        ⟨id, rfl, id, id⟩
      exact ⟨_, .step answer .refl⟩

/-- Nor during a wait. -/
theorem backOff_returns (config : Config) (delay calls : Nat) :
    ∃ events, Returns failing (backOff config delay) ⟨false, calls⟩ events .elapsed
      ⟨false, calls⟩ := by
  unfold backOff
  cases config.hasToken with
  | false =>
      have answer : failing.Answers ⟨false, calls⟩ (.sleep delay) () ⟨false, calls⟩ := ⟨id, rfl⟩
      exact ⟨_, .step answer .refl⟩
  | true =>
      have answer : failing.Answers ⟨false, calls⟩ (.sleepOrCancelled delay) .elapsed
          ⟨false, calls⟩ := ⟨id, rfl⟩
      exact ⟨_, .step answer .refl⟩

variable {config : Config} {attempt : UInt32} {calls : Nat}

/-- A turn that cannot count its attempt. -/
theorem turn_overflows (isMax : addOne attempt = none)
    (onTransient : UInt32 → Unit → RetryProgram Unit Unit (Exit Unit Unit)) :
    ∃ events, Returns failing (turn config attempt onTransient) ⟨false, calls⟩ events .overflowed
      ⟨false, calls⟩ := by
  obtain ⟨events, sees⟩ := seesCancelled_returns config calls
  refine ⟨events ++ [], (sees.bind _).trans ?_⟩
  rw [Program.done_bind, isMax]
  exact .refl

/-- A turn that counts its attempt, which fails. -/
theorem turn_goesOn {next : UInt32} (isNext : addOne attempt = some next)
    (onTransient : UInt32 → Unit → RetryProgram Unit Unit (Exit Unit Unit)) :
    ∃ events, Reaches failing (turn config attempt onTransient) ⟨false, calls⟩ events
      (onTransient next ()) ⟨false, calls + 1⟩ := by
  obtain ⟨events, sees⟩ := seesCancelled_returns config calls
  have answer : failing.Answers ⟨false, calls⟩ .call (.error (.other ())) ⟨false, calls + 1⟩ :=
    ⟨id, rfl, rfl⟩
  refine ⟨events ++ [⟨.call, .error (.other ())⟩], (sees.bind _).trans ?_⟩
  rw [Program.done_bind, isNext]
  exact .step answer .refl

/-- As many delays as are left of the largest `u32` bring the counter there. -/
theorem retryLoop_overflows (config : Config) (delays : List Nat) {attempt : UInt32} (calls : Nat)
    (left : attempt.toNat + delays.length = 2 ^ 32 - 1) :
    ∃ events final, Returns failing (retryLoop config attempt delays) ⟨false, calls⟩ events
      .overflowed final := by
  induction delays generalizing attempt calls with
  | nil =>
      rw [retryLoop_nil]
      obtain ⟨events, run⟩ := turn_overflows (addOne_eq_none_iff.mpr left) _
      exact ⟨events, _, run⟩
  | cons delay rest ih =>
      rw [List.length_cons] at left
      have isLess : attempt.toNat + 1 < 2 ^ 32 := by omega
      obtain ⟨next, isNext, isSucc⟩ := addOne_of_lt isLess
      rw [retryLoop_cons]
      obtain ⟨_, attempted⟩ := turn_goesOn isNext _
      obtain ⟨_, waited⟩ := backOff_returns config delay (calls + 1)
      have leftNext : next.toNat + rest.length = 2 ^ 32 - 1 := by omega
      obtain ⟨_, final, rest⟩ := ih (calls + 1) leftNext
      exact ⟨_, final, attempted.trans ((waited.bind _).trans rest)⟩

/-- With as many retries as a `u32` can count, a run overflows, listened to or not. -/
theorem retry_overflows (config : Config) (isListened : Bool)
    (isMax : config.maxRetries.toNat = 2 ^ 32 - 1) : ¬ NeverOverflows config isListened := by
  intro never
  let backoff : Backoff config :=
    ⟨List.replicate config.maxRetries.toNat 0, List.length_replicate⟩
  cases isListened with
  | true =>
      have isOverflow : (retry config backoff true : RetryProgram Unit Unit _) =
          .done .overflowed := if_pos ⟨rfl, addOne_eq_none_iff.mpr isMax⟩
      refine never Unit Unit backoff alwaysFails false [] ⟨false, 0⟩ ?_
      rw [isOverflow]
      exact .refl
  | false =>
      have left : (0 : UInt32).toNat + backoff.delays.length = 2 ^ 32 - 1 := by
        rw [backoff.length_eq, isMax]
        rfl
      obtain ⟨events, final, run⟩ := retryLoop_overflows config backoff.delays 0 left
      refine never Unit Unit backoff alwaysFails false events final ?_
      have isLoop : (retry config backoff false : RetryProgram Unit Unit _) =
          retryLoop config 0 backoff.delays := if_neg nofun
      rwa [isLoop]

/-- Neither addition ever overflows exactly if there are fewer retries than a `u32` can
count. -/
theorem neverOverflows_iff (config : Config) (isListened : Bool) :
    NeverOverflows config isListened ↔ config.maxRetries.toNat < 2 ^ 32 - 1 := by
  have bound := config.maxRetries.toNat_lt
  constructor
  · intro never
    rcases Nat.lt_or_ge config.maxRetries.toNat (2 ^ 32 - 1) with below | notBelow
    · exact below
    · exact absurd never (retry_overflows config isListened (by omega))
  · intro below E T backoff outcomes cancelled events final run
    have safe := retry_safe config backoff isListened outcomes cancelled below
    obtain ⟨_, isReturned, _⟩ := safe.post_of_returns run
    cases isReturned

/-- The builder admits the largest `u32`. -/
theorem maxRetries_overflows :
    ¬ ∀ (builder : ConfigBuilder) (config : Config), builder.build = .ok config →
      ∀ isListened, NeverOverflows config isListened := by
  intro never
  let builder : ConfigBuilder := ({} : ConfigBuilder).maxRetries 4294967295
  have built : builder.build = .ok builder.inner := by
    obtain ⟨_, accepted⟩ := ConfigBuilder.build_eq_ok_iff.mp default_builds
    exact ConfigBuilder.build_eq_ok_iff.mpr ⟨rfl, accepted⟩
  exact retry_overflows builder.inner true rfl (never builder _ built true)

end AltairRs.Retry
