import AltairRs.Base32.Bytes

/-!
# `u64` as Crockford text

`encodeU64` writes thirteen letters; `decodeU64` reads a text of any length. The
loop keeps the number read so far, and `none` is the panic of `char_value`, which
no text reaches.
-/

namespace AltairRs.Base32

open Effect Positional

/-- `U64_ENCODED_LEN`. -/
def u64EncodedLen : Nat := 13

/-- The index `n & 0b1_1111`. -/
def lowSymbol (n : UInt64) : Symbol :=
  ⟨(n &&& 31).toNat, by
    rw [UInt64.toNat_and]
    exact Nat.lt_of_le_of_lt Nat.and_le_right (by decide)⟩

/-- The loop of `encode_u64`, from the last slot to the first. -/
def encodeSlots : Nat → UInt64 → List Char → List Char
  | 0, _, buf => buf
  | slots + 1, n, buf => encodeSlots slots (n >>> 5) (letter (lowSymbol n) :: buf)

/-- `encode_u64`. -/
def encodeU64 (n : UInt64) : String := String.ofList (encodeSlots u64EncodedLen n [])

/-- `u64::checked_mul`. -/
def checkedMul (first second : UInt64) : Option UInt64 :=
  if first.toNat * second.toNat < 2 ^ 64 then some (first * second) else none

/-- `u64::checked_add`. -/
def checkedAdd (first second : UInt64) : Option UInt64 :=
  if first.toNat + second.toNat < 2 ^ 64 then some (first + second) else none

/-- `char_value`; `none` is its panic. -/
def charValue (ch : UInt8) : Option UInt8 :=
  let within (low high : Char) : Bool := low.toUInt8 ≤ ch && ch ≤ high.toUInt8
  if within '0' '9' then
    some (ch - '0'.toUInt8)
  else if within 'A' 'H' then
    some (ch - 'A'.toUInt8 + 10)
  else if ch = 'J'.toUInt8 then
    some 18
  else if ch = 'K'.toUInt8 then
    some 19
  else if ch = 'M'.toUInt8 then
    some 20
  else if ch = 'N'.toUInt8 then
    some 21
  else if within 'P' 'T' then
    some (ch - 'P'.toUInt8 + 22)
  else if within 'V' 'Z' then
    some (ch - 'V'.toUInt8 + 27)
  else
    none

/-- `str::as_bytes`. -/
def asBytes (text : String) : List UInt8 := text.toList.flatMap String.utf8EncodeChar

/-- The loop of `decode_u64`, from an index on. -/
def decodeLoop (len : Nat) : Nat → UInt64 → List UInt8 → Option (Result UInt64)
  | _, acc, [] => some (.ok acc)
  | i, acc, ch :: rest => do
      let value ← charValue ch
      if len - i > u64EncodedLen then
        if value ≠ 0 then
          some (.error .overflow)
        else
          decodeLoop len (i + 1) acc rest
      else
        match (checkedMul acc 32).bind fun v => checkedAdd v value.toUInt64 with
        | none => some (.error .overflow)
        | some acc => decodeLoop len (i + 1) acc rest

/-- `decode_u64`. -/
def decodeU64 (text : String) : Option (Result UInt64) :=
  match normalize text with
  | .error e => some (.error e)
  | .ok normalized =>
      let bytes := asBytes normalized
      decodeLoop bytes.length 0 0 bytes

/-- The number the symbols of a text spell. -/
def textValue (text : String) : Nat := symbolValue (symbolsOf text.toList)

/-- The byte of a letter. -/
def letterByte (symbol : Symbol) : UInt8 := (letter symbol).toUInt8

/-- The bytes of a text of letters are those of the letters. -/
theorem asBytes_letters (symbols : List Symbol) :
    asBytes (String.ofList (symbols.map letter)) = symbols.map letterByte := by
  have single : ∀ symbol, String.utf8EncodeChar (letter symbol) = [letterByte symbol] := by decide
  rw [asBytes, String.toList_ofList, List.flatMap_map, List.map_eq_flatMap]
  simp only [single]

/-- The byte of a letter has its symbol as value. -/
theorem charValue_letterByte (symbol : Symbol) :
    charValue (letterByte symbol) = some (UInt8.ofNat symbol) := by
  revert symbol
  decide

/-- One more symbol, as long as the number fits. -/
theorem checked_step (acc : UInt64) (symbol : Symbol) :
    ((checkedMul acc 32).bind fun v => checkedAdd v (UInt8.ofNat symbol).toUInt64) =
      if acc.toNat * 32 + symbol < 2 ^ 64 then some (UInt64.ofNat (acc.toNat * 32 + symbol))
      else none := by
  have isValue : (UInt8.ofNat symbol).toUInt64.toNat = symbol := by
    rw [UInt8.toNat_toUInt64, UInt8.toNat_ofNat_of_lt' (symbol.isLt.trans (by decide))]
  have isSum : acc * 32 + (UInt8.ofNat symbol).toUInt64 =
      UInt64.ofNat (acc.toNat * 32 + symbol) := by
    apply UInt64.toNat_inj.mp
    rw [UInt64.toNat_add, UInt64.toNat_mul, isValue, UInt64.toNat_ofNat', UInt64.toNat_ofNat,
      Nat.mod_add_mod]
  unfold checkedMul checkedAdd
  rw [show (32 : UInt64).toNat = 32 from rfl]
  by_cases fits : acc.toNat * 32 + symbol < 2 ^ 64
  · have product : acc.toNat * 32 < 2 ^ 64 := by omega
    have exact_ : (acc * 32).toNat = acc.toNat * 32 := by
      rw [UInt64.toNat_mul]
      exact Nat.mod_eq_of_lt product
    rw [if_pos product, if_pos fits, Option.bind_some, exact_, isValue, if_pos fits, isSum]
  · rw [if_neg fits]
    by_cases product : acc.toNat * 32 < 2 ^ 64
    · have exact_ : (acc * 32).toNat = acc.toNat * 32 := by
        rw [UInt64.toNat_mul]
        exact Nat.mod_eq_of_lt product
      rw [if_pos product, Option.bind_some, exact_, isValue, if_neg fits]
    · rw [if_neg product, Option.bind_none]

/-- What the loop makes of a number. -/
def u64Result (number : Nat) : Result UInt64 :=
  if number < 2 ^ 64 then .ok (UInt64.ofNat number) else .error .overflow

/-- A front that is too large makes the whole too large. -/
theorem u64Result_of_front {before rest : List Symbol} {symbol : Symbol}
    (large : 2 ^ 64 ≤ symbolValue (before ++ [symbol]) * 32 ^ rest.length) :
    u64Result (symbolValue (before ++ symbol :: rest)) = .error .overflow := by
  have whole : 2 ^ 64 ≤ symbolValue (before ++ symbol :: rest) := by
    rw [← List.singleton_append, ← List.append_assoc, symbolValue_append]
    omega
  rw [u64Result, if_neg (Nat.not_lt.mpr whole)]

/-- The loop, from any front read: its number is kept, and is zero as long as more
than thirteen symbols are left. -/
theorem decodeLoop_eq (before rest : List Symbol) (acc : UInt64)
    (isRead : acc.toNat = symbolValue before)
    (onlyZeros : u64EncodedLen < rest.length → symbolValue before = 0) :
    decodeLoop (before ++ rest).length before.length acc (rest.map letterByte) =
      some (u64Result (symbolValue (before ++ rest))) := by
  induction rest generalizing before acc with
  | nil =>
      have fits : symbolValue before < 2 ^ 64 := isRead ▸ acc.toNat_lt
      rw [List.append_nil, u64Result, if_pos fits, ← isRead, UInt64.ofNat_toNat]
      rfl
  | cons symbol rest ih =>
      have next : symbolValue (before ++ [symbol]) = acc.toNat * 32 + symbol := by
        rw [symbolValue_append, isRead, List.length_singleton, Nat.pow_one, symbolValue_singleton]
      have onward := ih (before ++ [symbol])
      have index : (before ++ [symbol]).length = before.length + 1 := by simp
      rw [List.append_assoc, List.singleton_append, index] at onward
      have left : (before ++ symbol :: rest).length - before.length = rest.length + 1 := by
        simp
      simp only [List.map_cons, decodeLoop, charValue_letterByte, left, Option.bind_eq_bind,
        Option.bind_some]
      by_cases long : rest.length + 1 > u64EncodedLen
      · have isZero : acc.toNat = 0 := by rw [isRead, onlyZeros long]
        rw [if_pos long]
        by_cases zero : symbol = 0
        · subst zero
          have stays : symbolValue (before ++ [0]) = 0 := by rw [next, isZero]; rfl
          rw [if_neg (by decide)]
          exact onward acc (isZero.trans stays.symm) fun _ => stays
        · have positive : 0 < symbol.val := Fin.pos_iff_ne_zero.mpr zero
          have table : ∀ other : Symbol, other ≠ 0 → UInt8.ofNat other ≠ 0 := by decide
          have far : 32 ^ u64EncodedLen ≤ 32 ^ rest.length :=
            Nat.pow_le_pow_right (by decide) (Nat.lt_succ_iff.mp long)
          rw [if_pos (table symbol zero), u64Result_of_front]
          rw [next, isZero, Nat.zero_mul, Nat.zero_add]
          calc 2 ^ 64 ≤ 1 * 32 ^ u64EncodedLen := by decide
            _ ≤ symbol.val * 32 ^ rest.length := Nat.mul_le_mul positive far
      · rw [if_neg long, checked_step]
        by_cases fits : acc.toNat * 32 + symbol < 2 ^ 64
        · rw [if_pos fits]
          apply onward
          · rw [next, UInt64.toNat_ofNat_of_lt' fits]
          · intro tooLong
            exact absurd (Nat.lt_succ_of_lt tooLong) long
        · rw [if_neg fits, u64Result_of_front]
          rw [next]
          exact (Nat.le_of_not_lt fits).trans (Nat.le_mul_of_pos_right _ (Nat.pow_pos (by decide)))

/-- A lenient text decodes to its number, if that is a `u64`. -/
theorem decodeU64_of_lenient {text : String} (lenient : ∀ ch ∈ text.toList, Lenient ch) :
    decodeU64 text = some (u64Result (textValue text)) := by
  unfold decodeU64
  rw [normalize_of_lenient lenient]
  simp only [asBytes_letters]
  rw [List.length_map]
  exact decodeLoop_eq [] (symbolsOf text.toList) 0 rfl fun _ => rfl

/-- The slots hold the last digits of the number. -/
theorem encodeSlots_eq (slots : Nat) (n : UInt64) (buf : List Char) :
    encodeSlots slots n buf =
      ((digits 32 slots n.toNat).map fun digit => letter (Fin.ofNat 32 digit)) ++ buf := by
  induction slots generalizing n buf with
  | zero => rfl
  | succ slots ih =>
      have quotient : (n >>> 5).toNat = n.toNat / 32 := by
        rw [UInt64.toNat_shiftRight]
        exact Nat.shiftRight_eq_div_pow _ _
      have remainder : lowSymbol n = Fin.ofNat 32 (n.toNat % 32) := by
        ext
        have masked : n.toNat &&& 31 = n.toNat % 32 := Nat.and_two_pow_sub_one_eq_mod n.toNat 5
        simp [lowSymbol, masked]
      rw [encodeSlots, ih, quotient, remainder, digits, List.map_append, List.append_assoc]
      rfl

/-- The symbols that `encode_u64` writes. -/
def u64Symbols (n : UInt64) : List Symbol :=
  (digits 32 u64EncodedLen n.toNat).map (Fin.ofNat 32)

/-- The encoding is the text of the symbols' letters. -/
theorem encodeU64_eq (n : UInt64) : encodeU64 n = String.ofList ((u64Symbols n).map letter) := by
  rw [encodeU64, encodeSlots_eq, List.append_nil, u64Symbols, List.map_map]
  rfl

/-- The symbols have the number they encode. -/
theorem symbolValue_u64Symbols (n : UInt64) : symbolValue (u64Symbols n) = n.toNat := by
  have values : (u64Symbols n).map Fin.val = digits 32 u64EncodedLen n.toNat := by
    rw [u64Symbols, List.map_map]
    apply (List.map_congr_left ?_).trans (List.map_id _)
    intro digit member
    exact Nat.mod_eq_of_lt (lt_of_mem_digits (by decide) member)
  rw [symbolValue, values, value_digits]
  exact Nat.mod_eq_of_lt (n.toNat_lt.trans (by decide))

/-- Decoding is exact: the first bad character is named, and a lenient text yields
the number of its symbols, or `Overflow` if that is no `u64`. A text that
normalizes to an encoding decodes to what was encoded. -/
theorem decodeU64_exact (text : String) :
    (∀ before ch after, text.toList = before ++ ch :: after → (∀ other ∈ before, Lenient other) →
      ¬ Lenient ch →
        decodeU64 text = some (.error (.invalidChar ch (String.ofList before).utf8ByteSize))) ∧
    ((∀ ch ∈ text.toList, Lenient ch) →
      (textValue text < 2 ^ 64 → ∃ n, decodeU64 text = some (.ok n) ∧ n.toNat = textValue text) ∧
      (2 ^ 64 ≤ textValue text → decodeU64 text = some (.error .overflow))) ∧
    ∀ n, normalize text = .ok (encodeU64 n) → decodeU64 text = some (.ok n) := by
  refine ⟨fun before ch after split lenient bad => ?_,
    fun lenient => ⟨fun fits => ?_, fun large => ?_⟩,
    fun n normalized => ?_⟩
  · unfold decodeU64
    rw [normalize_of_bad split lenient bad]
  · refine ⟨UInt64.ofNat (textValue text), ?_, UInt64.toNat_ofNat_of_lt' fits⟩
    rw [decodeU64_of_lenient lenient, u64Result, if_pos fits]
  · rw [decodeU64_of_lenient lenient, u64Result, if_neg (Nat.not_lt.mpr large)]
  · obtain ⟨lenient, same⟩ := normalize_eq_ok_iff.mp normalized
    rw [encodeU64_eq] at same
    have symbols : u64Symbols n = symbolsOf text.toList :=
      List.map_injective_iff.mpr letter_injective (String.ofList_injective same)
    rw [decodeU64_of_lenient lenient, textValue, ← symbols, symbolValue_u64Symbols, u64Result,
      if_pos n.toNat_lt, UInt64.ofNat_toNat]

end AltairRs.Base32
