import AltairRs.Base32.Check

/-!
# Exact check-digit decoding

`decodeWithCheck` has five ends. Which one a text comes to, and the position an
error names, is decided by its last character, then by the characters before it,
and last by the check digit of the decoded bytes.
-/

namespace AltairRs.Base32

open Positional

variable (base32 : Base32Crate)

/-- A character that has no index in the check alphabet. -/
def Foreign (ch : Char) : Prop := ∀ index, ch ≠ checkAlphabet.get index

/-- A foreign character has no check value. -/
theorem checkValueFromChar_of_foreign {ch : Char} (foreign : Foreign ch) :
    checkValueFromChar ch = none := by
  cases isValue : checkValueFromChar ch with
  | none => rfl
  | some value =>
      obtain ⟨index, isChar, _⟩ := eq_get_of_checkValueFromChar isValue
      exact absurd isChar (foreign index)

/-- A foreign last character is refused under its position. -/
theorem decodeWithCheck_of_foreign (body : List Char) {found : Char} (foreign : Foreign found) :
    decodeWithCheck base32 (String.ofList (body ++ [found])) =
      .error (.invalidChar found (String.ofList body).utf8ByteSize) := by
  rw [decodeWithCheck, String.toList_ofList, List.getLast?_concat]
  simp only [checkValueFromChar_of_foreign foreign, List.dropLast_concat]
  rfl

/-- Otherwise the first bad character before it is refused. -/
theorem decodeWithCheck_of_bad {before after : List Char} {ch : Char} (index : Fin 37)
    (lenient : ∀ other ∈ before, Lenient other) (bad : ¬ Lenient ch) :
    decodeWithCheck base32 (String.ofList (before ++ ch :: after ++ [checkAlphabet.get index])) =
      .error (.invalidChar ch (String.ofList before).utf8ByteSize) := by
  have isBody : (String.ofList (before ++ ch :: after)).toList = before ++ ch :: after :=
    String.toList_ofList
  rw [decodeWithCheck, String.toList_ofList, List.getLast?_concat]
  simp only [checkValueFromChar_get, List.dropLast_concat]
  rw [normalize_of_bad isBody lenient bad]
  rfl

/-- A bad character stands before the last one. -/
theorem utf8ByteSize_lt (before after : List Char) (ch : Char) :
    (String.ofList before).utf8ByteSize < (String.ofList (before ++ ch :: after)).utf8ByteSize := by
  have split : String.ofList (before ++ ch :: after) =
      String.ofList before ++ (String.singleton ch ++ String.ofList after) := by
    apply String.toList_inj.mp
    simp
  have positive := Char.utf8Size_pos ch
  rw [split, String.utf8ByteSize_append, String.utf8ByteSize_append, String.utf8ByteSize_singleton]
  omega

/-- The text is refused under the position of its last character exactly if that is
foreign. -/
theorem decodeWithCheck_at_last_iff (body : List Char) (found : Char) :
    (∃ ch, decodeWithCheck base32 (String.ofList (body ++ [found])) =
      .error (.invalidChar ch (String.ofList body).utf8ByteSize)) ↔ Foreign found := by
  constructor
  · rintro ⟨ch, refused⟩ index rfl
    rcases lenient_or_bad body with lenient | ⟨before, other, after, rfl, front, bad⟩
    · rw [decodeWithCheck_of_lenient base32 lenient (checkValueFromChar_get index)] at refused
      simp only at refused
      split_ifs at refused
      cases refused
    · rw [decodeWithCheck_of_bad base32 index front bad] at refused
      have earlier := utf8ByteSize_lt before after other
      simp only [Except.error.injEq, Error.invalidChar.injEq] at refused
      omega
  · exact fun foreign => ⟨found, decodeWithCheck_of_foreign base32 body foreign⟩

/-- Only the empty text is reported as empty. -/
theorem decodeWithCheck_eq_empty_iff (text : String) :
    decodeWithCheck base32 text = .error .empty ↔ text = "" := by
  constructor
  · intro refused
    rcases List.eq_nil_or_concat text.toList with isEmpty | ⟨body, found, split⟩
    · exact String.toList_inj.mp isEmpty
    · rw [List.concat_eq_append] at split
      obtain rfl : text = String.ofList (body ++ [found]) := by rw [← split, String.ofList_toList]
      by_cases known : ∃ index, found = checkAlphabet.get index
      · obtain ⟨index, rfl⟩ := known
        rcases lenient_or_bad body with lenient | ⟨before, ch, after, rfl, front, bad⟩
        · rw [decodeWithCheck_of_lenient base32 lenient (checkValueFromChar_get index)] at refused
          simp only at refused
          split_ifs at refused
          cases refused
        · rw [decodeWithCheck_of_bad base32 index front bad] at refused
          cases refused
      · rw [decodeWithCheck_of_foreign base32 body (not_exists.mp known)] at refused
        cases refused
  · rintro rfl
    rfl

/-- The check holds exactly if the index is the number of the bytes modulo 37. -/
theorem checksum_eq_ofNat_iff (data : List UInt8) (index : Fin 37) :
    checksum data = UInt8.ofNat index ↔ index.val = byteValue data % 37 := by
  rw [← UInt8.toNat_inj, checksum_eq, UInt8.toNat_ofNat_of_lt' (index.isLt.trans (by decide))]
  exact eq_comm

/-- One turn of `checksum` fits a `u32`, after any bytes. -/
theorem checksumLoop_turn_lt (before : List UInt8) (byte : UInt8) :
    (checksumLoop before).toNat * 256 + byte.toNat < 2 ^ 32 := by
  have small : byteValue before % 37 < 37 := Nat.mod_lt _ (by decide)
  have byteSmall := byte.toNat_lt
  rw [checksumLoop_eq]
  omega

/-- What is encoded with its check digit is decoded. -/
theorem decodeWithCheck_encodeWithCheck (data : List UInt8) :
    decodeWithCheck base32 (encodeWithCheck base32 data) = .ok data := by
  rw [decodeWithCheck_eq_ok_iff]
  refine ⟨_, _, toList_encodeWithCheck base32 data, letters_lenient _, ?_, rfl⟩
  rw [symbolsOf_letters, groupedBytes_groupedSymbols]

/-- A text whose last character has an index, and whose body decodes: the check
decides, and the digit that a mismatch expects makes the text decode. -/
theorem decodeWithCheck_of_decoded {body : List Char} {bytes : List UInt8} (index : Fin 37)
    (isDecoded : decode base32 (String.ofList body) = .ok bytes) :
    (decodeWithCheck base32 (String.ofList (body ++ [checkAlphabet.get index])) = .ok bytes ↔
      index.val = byteValue bytes % 37) ∧
    (index.val ≠ byteValue bytes % 37 →
      ∃ expected, decodeWithCheck base32 (String.ofList (body ++ [checkAlphabet.get index])) =
          .error (.checkMismatch expected (checkAlphabet.get index)) ∧
        decodeWithCheck base32 (String.ofList (body ++ [expected])) = .ok bytes) := by
  have lenient : ∀ ch ∈ body, Lenient ch := by
    have accepted := ((decode_lenient base32).2 (String.ofList body)).1.mp ⟨bytes, isDecoded⟩
    rwa [String.toList_ofList] at accepted
  have isBytes : groupedBytes (symbolsOf body) = bytes := by
    have lenientText : ∀ ch ∈ (String.ofList body).toList, Lenient ch := by
      rwa [String.toList_ofList]
    have decoded := decode_of_lenient base32 lenientText
    rw [String.toList_ofList, isDecoded] at decoded
    exact (Except.ok.inj decoded).symm
  rw [decodeWithCheck_of_lenient base32 lenient (checkValueFromChar_get index), isBytes]
  simp only [← checksum_eq_ofNat_iff]
  refine ⟨⟨fun accepted => ?_, fun holds => if_pos holds⟩, fun differs => ?_⟩
  · split_ifs at accepted with holds
    exact holds
  · have mismatch := mt (checksum_eq_ofNat_iff bytes index).mp differs
    refine ⟨checkCharFor bytes, if_neg mismatch, ?_⟩
    rw [decodeWithCheck_eq_ok_iff, String.toList_ofList]
    exact ⟨body, _, rfl, lenient, isBytes.symm, rfl⟩

/-- Check-digit decoding is exact: every text comes to the end that its last
character, its body and its check digit decide, no turn of the checksum overflows,
and encodings decode. -/
theorem decodeWithCheck_exact :
    (∀ text, decodeWithCheck base32 text = .error .empty ↔ text = "") ∧
    (∀ body found,
      ((∃ ch, decodeWithCheck base32 (String.ofList (body ++ [found])) =
        .error (.invalidChar ch (String.ofList body).utf8ByteSize)) ↔ Foreign found) ∧
      (Foreign found → decodeWithCheck base32 (String.ofList (body ++ [found])) =
        .error (.invalidChar found (String.ofList body).utf8ByteSize))) ∧
    (∀ before ch after index, (∀ other ∈ before, Lenient other) → ¬ Lenient ch →
      decodeWithCheck base32 (String.ofList (before ++ ch :: after ++ [checkAlphabet.get index])) =
        .error (.invalidChar ch (String.ofList before).utf8ByteSize)) ∧
    (∀ body index, (∀ ch ∈ body, Lenient ch) →
      ∃ bytes, decode base32 (String.ofList body) = .ok bytes ∧
        (decodeWithCheck base32 (String.ofList (body ++ [checkAlphabet.get index])) = .ok bytes ↔
          index.val = byteValue bytes % 37) ∧
        (index.val ≠ byteValue bytes % 37 →
          ∃ expected, decodeWithCheck base32 (String.ofList (body ++ [checkAlphabet.get index])) =
              .error (.checkMismatch expected (checkAlphabet.get index)) ∧
            decodeWithCheck base32 (String.ofList (body ++ [expected])) = .ok bytes)) ∧
    (∀ before (byte : UInt8), (checksumLoop before).toNat * 256 + byte.toNat < 2 ^ 32) ∧
    ∀ data, decodeWithCheck base32 (encodeWithCheck base32 data) = .ok data := by
  refine ⟨decodeWithCheck_eq_empty_iff base32, fun body found => ⟨?_, ?_⟩, ?_, ?_,
    checksumLoop_turn_lt, decodeWithCheck_encodeWithCheck base32⟩
  · exact decodeWithCheck_at_last_iff base32 body found
  · exact decodeWithCheck_of_foreign base32 body
  · exact fun before ch after index lenient bad => decodeWithCheck_of_bad base32 index lenient bad
  · intro body index lenient
    have isLenient : ∀ ch ∈ (String.ofList body).toList, Lenient ch := by
      rwa [String.toList_ofList]
    have isDecoded := decode_of_lenient base32 isLenient
    exact ⟨_, isDecoded, decodeWithCheck_of_decoded base32 index isDecoded⟩

end AltairRs.Base32
