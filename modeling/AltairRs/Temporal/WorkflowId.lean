import Mathlib.Data.List.TakeDrop
import AltairRs.Base32.RoundTrip

/-!
# Workflow ids

`encode` packs the JSON bytes of a payload into a workflow id, `{prefix}-{base32}`,
and `decode` splits the id at its last hyphen. Encoded bytes hold no hyphen, so
that split is right whatever the prefix is.
-/

namespace AltairRs.Temporal.WorkflowId

open Effect Base32

/-- `altair_temporal::Error`, as far as workflow ids go. -/
inductive Error where
  | configuration (message : String)
deriving DecidableEq, Repr

/-- The crate's result alias. -/
abbrev Result (α : Type) := Except Error α

/-- `serde_json` at a payload type; an error is its text. -/
structure SerdeJson (Payload : Type) where
  toVec : Payload → Except String (List UInt8)
  fromSlice : List UInt8 → Except String Payload
  fromSlice_toVec : ∀ {payload bytes}, toVec payload = .ok bytes → fromSlice bytes = .ok payload
  nonempty : ∀ {payload bytes}, toVec payload = .ok bytes → bytes ≠ []

/-- The bytes of an ASCII text. -/
def asciiBytes (text : String) : List UInt8 := text.toList.map fun ch => UInt8.ofNat ch.toNat

/-- `serde_json` at `bool`. -/
def SerdeJson.bool : SerdeJson Bool where
  toVec payload := .ok (asciiBytes (if payload then "true" else "false"))
  fromSlice bytes :=
    if bytes = asciiBytes "true" then .ok true
    else if bytes = asciiBytes "false" then .ok false
    else .error "expected a boolean"
  fromSlice_toVec := by
    rintro (_ | _) _ ⟨⟩ <;> decide
  nonempty := by
    rintro (_ | _) _ ⟨⟩ <;> decide

/-- `MAX_WORKFLOW_ID_LEN`. -/
def maxWorkflowIdLen : Nat := 200

/-- `str::rsplit_once`: the parts before and after the last separator. -/
def rsplitOnce (text : String) (separator : Char) : Option (String × String) :=
  let reversed := text.toList.reverse
  match reversed.dropWhile (· ≠ separator) with
  | [] => none
  | _ :: before => some (String.ofList before.reverse,
      String.ofList (reversed.takeWhile (· ≠ separator)).reverse)

variable {Payload : Type} (debug : Char → String) (base32 : Base32Crate)
  (serde : SerdeJson Payload)

/-- `workflow_id::encode`. -/
def encode (idPrefix : String) (payload : Payload) : Result String := do
  let bytes ← (serde.toVec payload).mapError fun e =>
    Error.configuration ("payload serialise failed: " ++ e)
  let encoded := Base32.encode base32 bytes
  let id := idPrefix ++ "-" ++ encoded
  if id.utf8ByteSize > maxWorkflowIdLen then
    throw (.configuration ("workflow id is " ++ toString id.utf8ByteSize ++ " bytes, max " ++
      toString maxWorkflowIdLen))
  return id

/-- `workflow_id::decode`; `debug` prints a character in an error. -/
def decode (id : String) : Result (String × Payload) :=
  match rsplitOnce id '-' with
  | none => .error (.configuration ("workflow id missing '-' separator: " ++ id))
  | some (idPrefix, encoded) => do
      if encoded.isEmpty then
        throw (.configuration ("workflow id has empty encoded segment: " ++ id))
      let bytes ← (Base32.decode base32 encoded).mapError fun e : Base32.Error =>
        Error.configuration ("workflow id base32 decode failed: " ++ e.display debug)
      let payload ← (serde.fromSlice bytes).mapError fun e =>
        Error.configuration ("workflow id payload deserialise failed: " ++ e)
      return (idPrefix, payload)

/-- A part without the separator is split off whole. -/
theorem rsplitOnce_append (before after : List Char) {separator : Char}
    (without : separator ∉ after) :
    rsplitOnce (String.ofList (before ++ separator :: after)) separator =
      some (String.ofList before, String.ofList after) := by
  have differs : ∀ ch ∈ after.reverse, decide (ch ≠ separator) = true := by
    intro ch member
    rw [decide_eq_true_iff]
    rintro rfl
    exact without (List.mem_reverse.mp member)
  have reversed : (before ++ separator :: after).reverse =
      after.reverse ++ separator :: before.reverse := by
    simp
  rw [rsplitOnce, String.toList_ofList, reversed, List.dropWhile_append_of_pos differs,
    List.takeWhile_append_of_pos differs]
  simp

/-- No letter is a hyphen. -/
theorem hyphen_notMem_letters (symbols : List Symbol) : '-' ∉ symbols.map letter := by
  have noLetter : ∀ symbol, letter symbol ≠ '-' := by decide
  rw [List.mem_map]
  rintro ⟨symbol, _, isHyphen⟩
  exact noLetter symbol isHyphen

/-- Every letter is one byte. -/
theorem utf8ByteSize_letters (symbols : List Symbol) :
    (String.ofList (symbols.map letter)).utf8ByteSize = symbols.length := by
  have narrow : ∀ symbol, (String.singleton (letter symbol)).utf8ByteSize = 1 := by decide
  induction symbols with
  | nil => rfl
  | cons symbol symbols ih =>
      rw [List.map_cons, ← List.singleton_append, String.ofList_append,
        String.utf8ByteSize_append, ih, List.length_cons, Nat.add_comm]
      exact congrArg _ (narrow symbol)

/-- The length of an id. -/
theorem utf8ByteSize_id (idPrefix : String) (bytes : List UInt8) :
    (idPrefix ++ "-" ++ Base32.encode base32 bytes).utf8ByteSize =
      idPrefix.utf8ByteSize + 1 + (8 * bytes.length + 4) / 5 := by
  rw [Base32.encode, base32.encode_eq, String.utf8ByteSize_append, String.utf8ByteSize_append,
    utf8ByteSize_letters, length_groupedSymbols]
  rfl

/-- `encode` returns the id of the payload's bytes, if they can be had and the id is
short enough. -/
theorem encode_eq_ok_iff {idPrefix id : String} {payload : Payload} :
    encode base32 serde idPrefix payload = .ok id ↔ ∃ bytes, serde.toVec payload = .ok bytes ∧
      id = idPrefix ++ "-" ++ Base32.encode base32 bytes ∧ id.utf8ByteSize ≤ 200 := by
  rw [encode, bind_eq_ok_iff]
  simp only [mapError_eq_ok_iff]
  refine exists_congr fun bytes => and_congr_right fun _ => ?_
  split_ifs with long
  · refine ⟨nofun, ?_⟩
    rintro ⟨rfl, short⟩
    exact absurd long (Nat.not_lt.mpr short)
  · constructor
    · rintro ⟨⟩
      exact ⟨rfl, Nat.not_lt.mp long⟩
    · rintro ⟨rfl, _⟩
      rfl

/-- What was encoded is decoded. -/
theorem decode_encode {idPrefix id : String} {payload : Payload}
    (encoded : encode base32 serde idPrefix payload = .ok id) :
    decode debug base32 serde id = .ok (idPrefix, payload) := by
  obtain ⟨bytes, isJson, rfl, _⟩ := (encode_eq_ok_iff base32 serde).mp encoded
  have isText : idPrefix ++ "-" ++ Base32.encode base32 bytes =
      String.ofList (idPrefix.toList ++ '-' :: (groupedSymbols bytes).map letter) := by
    rw [Base32.encode, base32.encode_eq]
    apply String.toList_inj.mp
    simp
  have nonempty : (String.ofList ((groupedSymbols bytes).map letter)).isEmpty = false := by
    have positive := List.length_pos_of_ne_nil (serde.nonempty isJson)
    have some : 0 < (groupedSymbols bytes).length := by
      rw [length_groupedSymbols, symbolCount]
      omega
    simpa using List.ne_nil_of_length_pos some
  have decoded : Base32.decode base32 (String.ofList ((groupedSymbols bytes).map letter)) =
      .ok bytes := by
    rw [decode_of_lenient base32, String.toList_ofList, symbolsOf_letters,
      groupedBytes_groupedSymbols]
    rw [String.toList_ofList]
    exact letters_lenient _
  rw [decode, isText, rsplitOnce_append _ _ (hyphen_notMem_letters _), String.ofList_toList]
  simp only [nonempty, decoded, Bool.false_eq_true, if_false, Except.mapError, bind, Except.bind]
  rw [serde.fromSlice_toVec isJson]
  rfl

/-- Workflow ids give back their prefix and payload, are at most 200 bytes long and
exist exactly for what fits; so no two payloads share an id. -/
theorem encode_round_trip :
    (∀ idPrefix payload id, encode base32 serde idPrefix payload = .ok id →
      decode debug base32 serde id = .ok (idPrefix, payload) ∧ id.utf8ByteSize ≤ 200) ∧
    (∀ idPrefix payload bytes, serde.toVec payload = .ok bytes →
      ((∃ e, encode base32 serde idPrefix payload = .error e) ↔
        200 < idPrefix.utf8ByteSize + 1 + (8 * bytes.length + 4) / 5)) ∧
    ∀ first firstPayload second secondPayload id,
      encode base32 serde first firstPayload = .ok id →
        encode base32 serde second secondPayload = .ok id →
          first = second ∧ firstPayload = secondPayload := by
  refine ⟨fun idPrefix payload id encoded => ⟨decode_encode debug base32 serde encoded, ?_⟩, ?_, ?_⟩
  · obtain ⟨_, _, _, short⟩ := (encode_eq_ok_iff base32 serde).mp encoded
    exact short
  · intro idPrefix payload bytes isJson
    have succeeds_iff : (∃ id, encode base32 serde idPrefix payload = .ok id) ↔
        idPrefix.utf8ByteSize + 1 + (8 * bytes.length + 4) / 5 ≤ 200 := by
      rw [← utf8ByteSize_id base32]
      simp [encode_eq_ok_iff, isJson]
    rw [← Nat.not_le, ← succeeds_iff]
    cases encode base32 serde idPrefix payload with
    | error e => simp
    | ok id => simp
  · intro first firstPayload second secondPayload id isFirst isSecond
    have decoded := (decode_encode debug base32 serde isFirst).symm.trans
      (decode_encode debug base32 serde isSecond)
    exact Prod.mk.inj (Except.ok.inj decoded)

/-- A prefix with a hyphen of its own. -/
theorem encode_round_trip_two_hyphens :
    decode (fun ch => ch.toString) .grouping .bool
      ("nightly-run" ++ "-" ++ Base32.encode .grouping (asciiBytes "true")) =
        .ok ("nightly-run", true) := by
  have short : ("nightly-run" ++ "-" ++
      Base32.encode .grouping (asciiBytes "true")).utf8ByteSize ≤ 200 := by
    rw [utf8ByteSize_id]
    decide
  exact ((encode_round_trip (fun ch => ch.toString) .grouping .bool).1 "nightly-run" true _
    ((encode_eq_ok_iff .grouping .bool).mpr ⟨_, rfl, rfl, short⟩)).1

end AltairRs.Temporal.WorkflowId
