import Mathlib.Data.List.Induction
import Mathlib.Tactic.ByContra
import AltairRs.Rest.Json

/-!
# The cap on a response body

`decode_json` looks at the announced length before it collects the body, and at the length
of the body after. Nothing stops it in between, so what it buffers is bounded exactly if
the head is refused or only the end follows the chunk that passes the cap.
-/

namespace AltairRs.Rest

variable {T : Type} {decode : List UInt8 → Except String T} {response : Response} {limit : UInt64}

/-- The body starts with these chunks. -/
def Response.StartsWith (response : Response) (chunks : List (List UInt8)) : Prop :=
  ∀ index chunk, chunks[index]? = some chunk → response.body index = .chunk chunk

/-- The body is these chunks, and ends. -/
def Response.HasBody (response : Response) (chunks : List (List UInt8)) : Prop :=
  response.StartsWith chunks ∧ response.body chunks.length = .ended

/-- The head is refused: for its status, or for the length it announces. -/
def Response.IsRefused (response : Response) (limit : UInt64) : Prop :=
  (400 ≤ response.status ∧ response.status < 600) ∨
    ∃ len, response.contentLength = some len ∧ limit < len

/-- Only the end of the body follows the chunk that passes the cap. -/
def Response.EndsOverCap (response : Response) (limit : UInt64) : Prop :=
  ∀ chunks, response.StartsWith chunks → limit.toNat < chunks.flatten.length →
    response.body chunks.length = .ended

/-- Nothing past the cap is decoded, at most the last chunk received is buffered past it,
and the next step then refuses the response. -/
structure KeepsCap (decode : List UInt8 → Except String T) (response : Response)
    (limit : UInt64) : Prop where
  returned : ∀ steps value, decodeJson decode response limit steps = .returned (.ok value) →
    ∃ chunks, response.HasBody chunks ∧ chunks.flatten.length ≤ limit.toNat
  buffered : ∀ steps chunks last,
    decodeJson decode response limit steps = .collecting (chunks ++ [last]) →
      (chunks ++ [last]).flatten.length ≤ limit.toNat + last.length
  stops : ∀ steps chunks, decodeJson decode response limit steps = .collecting chunks →
    limit.toNat < chunks.flatten.length →
      ∃ received, decodeJson decode response limit (steps + 1) =
        .returned (.error (.responseTooLarge received limit.toNat))

/-- What has been collected is the start of the body, and what is decoded is all of it. -/
def Decoding.Follows (response : Response) (limit : UInt64) : Decoding T → Prop
  | .start | .returned (.error _) => True
  | .collecting chunks => ¬ response.IsRefused limit ∧ response.StartsWith chunks
  | .returned (.ok _) => ∃ chunks, response.HasBody chunks ∧ chunks.flatten.length ≤ limit.toNat

/-- Every response starts with nothing. -/
theorem Response.startsWith_nil : response.StartsWith [] := nofun

/-- One chunk more. -/
theorem Response.startsWith_concat {chunks : List (List UInt8)} {last : List UInt8} :
    response.StartsWith (chunks ++ [last]) ↔
      response.StartsWith chunks ∧ response.body chunks.length = .chunk last := by
  constructor
  · intro starts
    refine ⟨fun index chunk isChunk => starts index chunk ?_,
      starts _ _ List.getElem?_concat_length⟩
    exact List.getElem?_append_left (List.getElem?_eq_some_iff.mp isChunk).1 ▸ isChunk
  · rintro ⟨starts, isLast⟩ index chunk isChunk
    rcases Nat.lt_trichotomy index chunks.length with inside | rfl | beyond
    · rw [List.getElem?_append_left inside] at isChunk
      exact starts index chunk isChunk
    · rw [List.getElem?_concat_length] at isChunk
      obtain rfl := Option.some.inj isChunk
      exact isLast
    · have isNone : (chunks ++ [last])[index]? = none :=
        List.getElem?_eq_none (by rw [List.length_append, List.length_singleton]; omega)
      cases isNone.symm.trans isChunk

/-- A head that is not refused is followed by the body. -/
theorem checkHead_of_accepted (accepted : ¬ response.IsRefused limit) :
    checkHead (T := T) response limit = .collecting [] := by
  obtain ⟨isFine, isShort⟩ := not_or.mp accepted
  unfold checkHead Response.errorForStatus
  rw [if_neg isFine]
  cases isLength : response.contentLength with
  | none => rfl
  | some len => exact if_neg fun exceeds => isShort ⟨len, isLength, exceeds⟩

/-- A head that is refused is the end. -/
theorem checkHead_of_refused (refused : response.IsRefused limit) :
    ∃ e, checkHead (T := T) response limit = .returned (.error e) := by
  unfold checkHead Response.errorForStatus
  by_cases isFine : 400 ≤ response.status ∧ response.status < 600
  · rw [if_pos isFine]
    exact ⟨_, rfl⟩
  · obtain ⟨len, isLength, exceeds⟩ := refused.resolve_left isFine
    rw [if_neg isFine, isLength]
    exact ⟨_, if_pos exceeds⟩

/-- All the bytes are decoded only within the cap. -/
theorem decodeBytes_ok {bytes : List UInt8} {value : T}
    (decoded : decodeBytes decode limit bytes = .ok value) : bytes.length ≤ limit.toNat := by
  unfold decodeBytes at decoded
  by_cases exceeds : limit.toNat < bytes.length
  · rw [if_pos exceeds] at decoded
    cases decoded
  · exact Nat.not_lt.mp exceeds

/-- Past the cap they are not. -/
theorem decodeBytes_of_exceeds {bytes : List UInt8} (exceeds : limit.toNat < bytes.length) :
    decodeBytes decode limit bytes = .error (.responseTooLarge bytes.length limit.toNat) :=
  if_pos exceeds

/-- A step goes on with the body. -/
theorem Decoding.Follows.step {state : Decoding T} (follows : state.Follows response limit) :
    (state.step decode response limit).Follows response limit := by
  cases state with
  | start =>
      by_cases refused : response.IsRefused limit
      · obtain ⟨e, isReturned⟩ := checkHead_of_refused (T := T) refused
        rw [Decoding.step, isReturned]
        trivial
      · rw [Decoding.step, checkHead_of_accepted refused]
        exact ⟨refused, Response.startsWith_nil⟩
  | collecting chunks =>
      obtain ⟨accepted, starts⟩ := follows
      rw [Decoding.step]
      cases isFrame : response.body chunks.length with
      | chunk bytes => exact ⟨accepted, Response.startsWith_concat.mpr ⟨starts, isFrame⟩⟩
      | failed message => trivial
      | ended =>
          simp only
          cases decoded : decodeBytes decode limit chunks.flatten with
          | error e => trivial
          | ok value => exact ⟨chunks, ⟨starts, isFrame⟩, decodeBytes_ok decoded⟩
  | returned result => exact follows

/-- So does any number of them. -/
theorem decodeJson_follows (decode : List UInt8 → Except String T) (response : Response)
    (limit : UInt64) (steps : Nat) :
    (decodeJson decode response limit steps).Follows response limit := by
  induction steps with
  | zero => trivial
  | succ steps ih =>
      rw [decodeJson_succ]
      exact ih.step

/-- Whatever the body starts with is collected, a step for every chunk. -/
theorem decodeJson_collects (decode : List UInt8 → Except String T)
    (accepted : ¬ response.IsRefused limit) (chunks : List (List UInt8))
    (starts : response.StartsWith chunks) :
    decodeJson decode response limit (chunks.length + 1) = .collecting chunks := by
  induction chunks using List.reverseRecOn with
  | nil =>
      rw [decodeJson_succ]
      exact checkHead_of_accepted accepted
  | append_singleton chunks last ih =>
      obtain ⟨before, isLast⟩ := Response.startsWith_concat.mp starts
      rw [List.length_append, List.length_singleton, decodeJson_succ, ih before, Decoding.step,
        isLast]

/-- The cap on the body is kept exactly if the head is refused, or only the end of the body
follows the chunk that passes it. -/
theorem keepsCap_iff (decode : List UInt8 → Except String T) (response : Response)
    (limit : UInt64) :
    KeepsCap decode response limit ↔
      response.IsRefused limit ∨ response.EndsOverCap limit := by
  constructor
  · intro keeps
    by_contra neither
    obtain ⟨accepted, goesOn⟩ := not_or.mp neither
    refine goesOn fun chunks starts exceeds => ?_
    have collected := decodeJson_collects decode accepted chunks starts
    obtain ⟨received, stopped⟩ := keeps.stops _ chunks collected exceeds
    rw [decodeJson_succ, collected, Decoding.step] at stopped
    cases isFrame : response.body chunks.length with
    | chunk bytes =>
        rw [isFrame] at stopped
        cases stopped
    | failed message =>
        rw [isFrame] at stopped
        cases stopped
    | ended => rfl
  · intro ends
    have follows {steps : Nat} {chunks : List (List UInt8)}
        (collected : decodeJson decode response limit steps = .collecting chunks) :
        response.StartsWith chunks ∧ response.EndsOverCap limit := by
      have isFollowed := decodeJson_follows decode response limit steps
      rw [collected] at isFollowed
      exact ⟨isFollowed.2, ends.resolve_left isFollowed.1⟩
    refine ⟨fun steps value returned => ?_, fun steps chunks last collected => ?_,
      fun steps chunks collected exceeds => ?_⟩
    · have isFollowed := decodeJson_follows decode response limit steps
      rwa [returned] at isFollowed
    · obtain ⟨starts, endsOver⟩ := follows collected
      obtain ⟨before, isLast⟩ := Response.startsWith_concat.mp starts
      rw [List.flatten_append, List.length_append, List.flatten_singleton]
      by_contra past
      have exceeds : limit.toNat < chunks.flatten.length := by omega
      cases isLast.symm.trans (endsOver chunks before exceeds)
    · obtain ⟨starts, endsOver⟩ := follows collected
      refine ⟨chunks.flatten.length, ?_⟩
      rw [decodeJson_succ, collected, Decoding.step, endsOver chunks starts exceeds]
      exact congrArg _ (decodeBytes_of_exceeds exceeds)

/-- A body of single bytes that never ends, of unknown length. -/
def endlessResponse : Response where
  status := 200
  contentLength := none
  body _ := .chunk [0]

/-- Its third byte is collected although the second has passed a cap of one. -/
theorem endlessResponse_not_keepsCap :
    ¬ KeepsCap (fun _ => (.ok () : Except String Unit)) endlessResponse 1 := by
  intro keeps
  obtain ⟨received, stopped⟩ := keeps.stops 3 [[0], [0]] rfl (by decide)
  cases stopped

end AltairRs.Rest
