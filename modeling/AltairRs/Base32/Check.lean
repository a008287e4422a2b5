import AltairRs.Base32.RoundTrip

/-!
# The Mod-37 check digit

The check digit is computed from the bytes, by Horner's rule. `decodeWithCheck`
accepts a text exactly when its last character is the check digit of the bytes
that the characters before it decode to.
-/

namespace AltairRs.Base32

open Effect Positional

/-- `CHECK_ALPHABET`. -/
def checkAlphabet : Vector Char 37 :=
  #v['0', '1', '2', '3', '4', '5', '6', '7', '8', '9', 'A', 'B', 'C', 'D', 'E', 'F', 'G', 'H', 'J',
    'K', 'M', 'N', 'P', 'Q', 'R', 'S', 'T', 'V', 'W', 'X', 'Y', 'Z', '*', '~', '$', '=', 'U']

/-- The loop of `checksum`, on a `u32`. -/
def checksumLoop (data : List UInt8) : UInt32 :=
  data.foldl (fun acc b => (acc * 256 + b.toUInt32) % 37) 0

/-- `checksum`. -/
def checksum (data : List UInt8) : UInt8 := (checksumLoop data).toUInt8

/-- No turn of the loop overflows, so it keeps the remainder. -/
theorem checksumLoop_eq (data : List UInt8) :
    (checksumLoop data).toNat = byteValue data % 37 := by
  induction data using List.reverseRecOn with
  | nil => rfl
  | append_singleton data byte ih =>
      have small : (checksumLoop data).toNat < 37 := by
        rw [ih]
        exact Nat.mod_lt _ (by decide)
      have byteSmall := byte.toNat_lt
      have exactProduct : (checksumLoop data * 256 + byte.toUInt32).toNat =
          (checksumLoop data).toNat * 256 + byte.toNat := by
        rw [UInt32.toNat_add, UInt32.toNat_mul, UInt8.toNat_toUInt32]
        have product : (checksumLoop data).toNat * 256 % 2 ^ 32 = (checksumLoop data).toNat * 256 :=
          Nat.mod_eq_of_lt (by omega)
        rw [show (256 : UInt32).toNat = 256 from rfl, product, Nat.mod_eq_of_lt (by omega)]
      have turn : checksumLoop (data ++ [byte]) =
          (checksumLoop data * 256 + byte.toUInt32) % 37 := by
        simp [checksumLoop]
      rw [turn, UInt32.toNat_mod, exactProduct, ih, byteValue_concat,
        show (37 : UInt32).toNat = 37 from rfl]
      omega

/-- The checksum is the remainder of the number that the bytes are. -/
theorem checksum_eq (data : List UInt8) : (checksum data).toNat = byteValue data % 37 := by
  have small : byteValue data % 37 < 37 := Nat.mod_lt _ (by decide)
  rw [checksum, UInt32.toNat_toUInt8, checksumLoop_eq]
  omega

/-- It is below the modulus. -/
theorem checksum_lt (data : List UInt8) : (checksum data).toNat < 37 := by
  rw [checksum_eq]
  exact Nat.mod_lt _ (by decide)

/-- `check_char_for`. -/
def checkCharFor (data : List UInt8) : Char :=
  checkAlphabet.get ⟨(checksum data).toNat, checksum_lt data⟩

/-- `check_value_from_char`. -/
def checkValueFromChar (ch : Char) : Option UInt8 :=
  (checkAlphabet.toList.findIdx? fun c => c = ch).bind fun i =>
    if i < 256 then some (UInt8.ofNat i) else none

/-- `encode_with_check`. -/
def encodeWithCheck (base32 : Base32Crate) (data : List UInt8) : String :=
  (encode base32 data).push (checkCharFor data)

/-- `decode_with_check`. -/
def decodeWithCheck (base32 : Base32Crate) (text : String) : Result (List UInt8) :=
  match text.toList.getLast? with
  | none => .error .empty
  | some found => do
      let body := String.ofList text.toList.dropLast
      let lastPos := body.utf8ByteSize
      match checkValueFromChar found with
      | none => throw (.invalidChar found lastPos)
      | some expectedValue =>
          let bodyNormalized ← normalize body
          let bytes ← decode base32 bodyNormalized
          let computed := checksum bytes
          if computed = expectedValue then
            return bytes
          else
            throw (.checkMismatch (checkAlphabet.get ⟨computed.toNat, checksum_lt bytes⟩) found)

/-- The characters of the check alphabet have their places as values. -/
theorem checkValueFromChar_get (index : Fin 37) :
    checkValueFromChar (checkAlphabet.get index) = some (UInt8.ofNat index) := by
  revert index
  decide

/-- No two values have the same symbol. -/
theorem checkAlphabet_get_injective : Function.Injective checkAlphabet.get := by
  have small (index : Fin 37) : index.val < UInt8.size := Nat.lt_trans index.isLt (by decide)
  intro first second same
  have isValue := checkValueFromChar_get first
  rw [same, checkValueFromChar_get, Option.some.injEq] at isValue
  have isSame := congrArg UInt8.toNat isValue
  rw [UInt8.toNat_ofNat_of_lt' (small first), UInt8.toNat_ofNat_of_lt' (small second)] at isSame
  exact Fin.ext isSame.symm

/-- Only its own character has a check value. -/
theorem eq_get_of_checkValueFromChar {ch : Char} {value : UInt8}
    (isValue : checkValueFromChar ch = some value) :
    ∃ index, ch = checkAlphabet.get index ∧ value = UInt8.ofNat index := by
  obtain ⟨index, isFound, small⟩ := Option.bind_eq_some_iff.mp isValue
  obtain ⟨inside, isChar, _⟩ := List.findIdx?_eq_some_iff_getElem.mp isFound
  have isIndex : index < 37 := by simpa using inside
  refine ⟨⟨index, isIndex⟩, ?_, ?_⟩
  · rw [← of_decide_eq_true isChar]
    rfl
  · rw [if_pos (isIndex.trans (by decide))] at small
    exact (Option.some.inj small).symm

/-- Only the check digit of bytes has their checksum as its value. -/
theorem checkValueFromChar_eq_checksum_iff (ch : Char) (data : List UInt8) :
    checkValueFromChar ch = some (checksum data) ↔ ch = checkCharFor data := by
  constructor
  · intro isValue
    obtain ⟨index, rfl, isChecksum⟩ := eq_get_of_checkValueFromChar isValue
    have isIndex : index = ⟨(checksum data).toNat, checksum_lt data⟩ := by
      ext
      have sameNumber := congrArg UInt8.toNat isChecksum
      rw [UInt8.toNat_ofNat_of_lt' (index.isLt.trans (by decide))] at sameNumber
      exact sameNumber.symm
    rw [checkCharFor, isIndex]
  · rintro rfl
    rw [checkCharFor, checkValueFromChar_get, UInt8.ofNat_toNat]

variable (base32 : Base32Crate)

/-- A text with a lenient body and a check character decodes, if the check holds. -/
theorem decodeWithCheck_of_lenient {body : List Char} {found : Char} {value : UInt8}
    (lenient : ∀ ch ∈ body, Lenient ch) (isValue : checkValueFromChar found = some value) :
    decodeWithCheck base32 (String.ofList (body ++ [found])) =
      let bytes := groupedBytes (symbolsOf body)
      if checksum bytes = value then .ok bytes
      else .error (.checkMismatch (checkCharFor bytes) found) := by
  have bodyLenient : ∀ ch ∈ (String.ofList body).toList, Lenient ch := by
    rwa [String.toList_ofList]
  have lettersLenient :
      ∀ ch ∈ (String.ofList ((symbolsOf body).map letter)).toList, Lenient ch := by
    rw [String.toList_ofList]
    exact letters_lenient _
  unfold decodeWithCheck
  rw [String.toList_ofList, List.getLast?_concat]
  simp only [List.dropLast_concat, isValue]
  rw [normalize_of_lenient bodyLenient, String.toList_ofList]
  simp only [bind, Except.bind]
  rw [decode_of_lenient base32 lettersLenient, String.toList_ofList, symbolsOf_letters]
  rfl

/-- A text is accepted exactly if it is lenient up to its last character, which is
the check digit of the decoded bytes. -/
theorem decodeWithCheck_eq_ok_iff (text : String) (bytes : List UInt8) :
    decodeWithCheck base32 text = .ok bytes ↔ ∃ body found, text.toList = body ++ [found] ∧
      (∀ ch ∈ body, Lenient ch) ∧ bytes = groupedBytes (symbolsOf body) ∧
      found = checkCharFor bytes := by
  constructor
  · intro accepted
    rcases List.eq_nil_or_concat text.toList with isEmpty | ⟨body, found, split⟩
    · rw [decodeWithCheck, isEmpty] at accepted
      cases accepted
    · rw [List.concat_eq_append] at split
      obtain rfl : text = String.ofList (body ++ [found]) := by rw [← split, String.ofList_toList]
      cases isValue : checkValueFromChar found with
      | none =>
          rw [decodeWithCheck, String.toList_ofList, List.getLast?_concat] at accepted
          simp only [isValue] at accepted
          cases accepted
      | some value =>
          rcases lenient_or_bad body with lenient | ⟨before, ch, after, rfl, front, bad⟩
          · rw [decodeWithCheck_of_lenient base32 lenient isValue] at accepted
            simp only at accepted
            split_ifs at accepted with holds
            cases accepted
            refine ⟨body, found, String.toList_ofList, lenient, rfl, ?_⟩
            rw [← checkValueFromChar_eq_checksum_iff, isValue, holds]
          · have isBody : (String.ofList (before ++ ch :: after)).toList = before ++ ch :: after :=
              String.toList_ofList
            rw [decodeWithCheck, String.toList_ofList, List.getLast?_concat] at accepted
            simp only [isValue, List.dropLast_concat] at accepted
            rw [normalize_of_bad isBody front bad] at accepted
            cases accepted
  · rintro ⟨body, found, split, lenient, rfl, isDigit⟩
    obtain rfl : text = String.ofList (body ++ [found]) := by rw [← split, String.ofList_toList]
    rw [← checkValueFromChar_eq_checksum_iff] at isDigit
    rw [decodeWithCheck_of_lenient base32 lenient isDigit]
    exact if_pos rfl

/-- The check character is written behind the letters. -/
theorem toList_encodeWithCheck (data : List UInt8) :
    (encodeWithCheck base32 data).toList =
      (groupedSymbols data).map letter ++ [checkCharFor data] := by
  rw [encodeWithCheck, String.toList_push, encode, base32.encode_eq, String.toList_ofList]

end AltairRs.Base32
