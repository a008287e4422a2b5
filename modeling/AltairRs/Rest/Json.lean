import Mathlib.Logic.Function.Iterate

/-!
# JSON responses

`decode_json` as a machine: the checks on the head of a response, then one frame of its
body after another, then the check on all of it. Between two frames it waits, so an endless
body is collected for ever.
-/

namespace AltairRs.Rest

/-- What a `reqwest::Error` is for here: an error status, or a body that breaks off. -/
inductive ReqwestError where
  | status (code : Nat)
  | body (message : String)
deriving DecidableEq, Repr

/-- The errors of `decode_json`. -/
inductive Error where
  | http (source : ReqwestError)
  | decode (message : String)
  | responseTooLarge (received limit : Nat)
deriving DecidableEq, Repr

/-- The crate's result alias. -/
abbrev Result (α : Type) := Except Error α

/-- What a body yields when it is polled. -/
inductive Frame where
  | chunk (bytes : List UInt8)
  | failed (message : String)
  | ended
deriving DecidableEq, Repr

/-- A response: what it announces, if anything, is not bound to what its body yields, and
that may be without end. -/
structure Response where
  status : Nat
  contentLength : Option UInt64
  body : Nat → Frame

/-- `Response::error_for_status`. -/
def Response.errorForStatus (response : Response) : Except ReqwestError Unit :=
  if 400 ≤ response.status ∧ response.status < 600 then
    .error (.status response.status)
  else
    .ok ()

/-- How far `decode_json` has come. -/
inductive Decoding (T : Type) where
  | start
  | collecting (chunks : List (List UInt8))
  | returned (result : Result T)

variable {T : Type} (decode : List UInt8 → Except String T) (response : Response) (limit : UInt64)

/-- The checks on the head; the announced length is looked at first. -/
def checkHead : Decoding T :=
  match response.errorForStatus with
  | .error e => .returned (.error (.http e))
  | .ok () =>
      match response.contentLength with
      | some len =>
          if limit < len then
            .returned (.error (.responseTooLarge len.toNat limit.toNat))
          else
            .collecting []
      | none => .collecting []

/-- The check on all the bytes, and `serde_json::from_slice`, which is `decode`. -/
def decodeBytes (bytes : List UInt8) : Result T :=
  let received := bytes.length
  if limit.toNat < received then
    .error (.responseTooLarge received limit.toNat)
  else
    (decode bytes).mapError .decode

/-- One step of `decode_json`; `Response::bytes` takes a step for every frame. -/
def Decoding.step : Decoding T → Decoding T
  | .start => checkHead response limit
  | .collecting chunks =>
      match response.body chunks.length with
      | .chunk bytes => .collecting (chunks ++ [bytes])
      | .failed message => .returned (.error (.http (.body message)))
      | .ended => .returned (decodeBytes decode limit chunks.flatten)
  | .returned result => .returned result

/-- `decode_json` after some steps. -/
def decodeJson (steps : Nat) : Decoding T :=
  (Decoding.step decode response limit)^[steps] .start

/-- One more step. -/
theorem decodeJson_succ (steps : Nat) :
    decodeJson decode response limit (steps + 1) =
      (decodeJson decode response limit steps).step decode response limit :=
  Function.iterate_succ_apply' ..

end AltairRs.Rest
