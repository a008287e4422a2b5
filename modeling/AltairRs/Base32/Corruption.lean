import Mathlib.Data.Int.ModEq
import AltairRs.Base32.Check

/-!
# What the check digit detects

A corrupted text that is accepted must decode to bytes with the same remainder.
The module settles when such bytes are the encoded ones: for one character
replaced by another, and for two adjacent characters swapped.
-/

namespace AltairRs.Base32

open Positional

/-- The surplus bits of so many symbols. -/
def surplus (symbols : Nat) : Nat := 5 * symbols % 8

/-- The surplus bits are what the last symbol has too many, four at most. -/
theorem surplus_symbolCount (bytes : Nat) :
    surplus (symbolCount bytes) = 5 * symbolCount bytes - 8 * bytes ∧
      surplus (symbolCount bytes) ≤ 4 := by
  have bounds : 8 * bytes ≤ 5 * symbolCount bytes ∧ 5 * symbolCount bytes ≤ 8 * bytes + 4 := by
    unfold symbolCount
    omega
  have quotient : 5 * symbolCount bytes / 8 = bytes := by omega
  unfold surplus
  omega

/-- Decoding drops the surplus bits of the number. -/
theorem byteValue_groupedBytes (symbols : List Symbol) :
    byteValue (groupedBytes symbols) = symbolValue symbols / 2 ^ surplus symbols.length := by
  have split := List.take_append_drop (8 * (5 * symbols.length / 8)) (symbolBits symbols)
  have small : ∀ bit ∈ (symbolBits symbols).drop (8 * (5 * symbols.length / 8)), bit < 2 :=
    fun bit member => lt_of_mem_spread (by decide) (List.mem_of_mem_drop member)
  have isSurplus : ((symbolBits symbols).drop (8 * (5 * symbols.length / 8))).length =
      surplus symbols.length := by
    rw [List.length_drop, length_symbolBits, surplus]
    omega
  have divided :
      value 2 ((symbolBits symbols).take (8 * (5 * symbols.length / 8)) ++
          (symbolBits symbols).drop (8 * (5 * symbols.length / 8))) /
        2 ^ ((symbolBits symbols).drop (8 * (5 * symbols.length / 8))).length =
      value 2 ((symbolBits symbols).take (8 * (5 * symbols.length / 8))) :=
    value_append_div (by decide) small
  rw [split, isSurplus, value_symbolBits] at divided
  rw [← value_byteBits, byteBits_groupedBytes, divided]

/-- Encoding leaves the surplus bits zero. -/
theorem pow_surplus_dvd (data : List UInt8) :
    2 ^ surplus (symbolCount data.length) ∣ symbolValue (groupedSymbols data) := by
  rw [← value_symbolBits, symbolBits_groupedSymbols, paddedBits, value_append,
    value_replicate_zero, Nat.add_zero, List.length_replicate,
    (surplus_symbolCount data.length).1]
  exact Nat.dvd_mul_left _ _

/-- They divide every place but the last. -/
theorem pow_surplus_dvd_place (bytes : Nat) {places : Nat} (positive : 0 < places) :
    2 ^ surplus (symbolCount bytes) ∣ 32 ^ places := by
  have bounded := (surplus_symbolCount bytes).2
  rw [show (32 : Nat) = 2 ^ 5 from rfl, ← Nat.pow_mul]
  exact Nat.pow_dvd_pow 2 (by omega)

/-- Bytes of one length with one number are the same. -/
theorem eq_of_byteValue {first second : List UInt8} (sameLength : first.length = second.length)
    (same : byteValue first = byteValue second) : first = second :=
  (List.map_injective_iff.mpr fun _ _ => UInt8.toNat_inj.mp)
    (value_injective (by decide) (by simpa using sameLength) lt_of_mem_bytes lt_of_mem_bytes same)

variable {data : List UInt8} {high first second low : List Symbol}

/-- The number of the symbols around and in a window. -/
theorem symbolValue_window (high window low : List Symbol) :
    symbolValue (high ++ window ++ low) =
      (symbolValue high * 32 ^ window.length + symbolValue window) * 32 ^ low.length +
        symbolValue low := by
  rw [symbolValue_append, symbolValue_append]

/-- The bytes that a window of the encoded symbols replaced by another one decodes
to. -/
theorem byteValue_window (isData : groupedSymbols data = high ++ first ++ low)
    (sameWidth : second.length = first.length) :
    byteValue (groupedBytes (high ++ second ++ low)) =
      symbolValue (high ++ second ++ low) / 2 ^ surplus (symbolCount data.length) := by
  have sameLength : (high ++ second ++ low).length = symbolCount data.length := by
    rw [← length_groupedSymbols, isData]
    simp [sameWidth]
  rw [byteValue_groupedBytes, sameLength]

/-- The number of the bytes is that of the symbols without the surplus. -/
theorem byteValue_eq (isData : groupedSymbols data = high ++ first ++ low) :
    byteValue data =
      symbolValue (high ++ first ++ low) / 2 ^ surplus (symbolCount data.length) := by
  rw [← byteValue_window isData rfl, ← isData, groupedBytes_groupedSymbols]

/-- Before the last symbol no surplus bit is dropped from a window, so equal
remainders of the numbers are equal remainders of the windows. -/
theorem modEq_of_inner (isData : groupedSymbols data = high ++ first ++ low)
    (sameWidth : second.length = first.length) (inner : 0 < low.length)
    (same : byteValue (groupedBytes (high ++ second ++ low)) ≡ byteValue data [MOD 37]) :
    symbolValue second ≡ symbolValue first [MOD 37] := by
  have whole := pow_surplus_dvd data
  have place := pow_surplus_dvd_place data.length inner
  rw [byteValue_window isData sameWidth, byteValue_eq isData] at same
  rw [isData] at whole
  generalize 2 ^ surplus (symbolCount data.length) = unit at whole place same
  have lowWhole : unit ∣ symbolValue low := by
    rw [symbolValue_window] at whole
    exact (Nat.dvd_add_right (place.mul_left _)).mp whole
  have otherWhole : unit ∣ symbolValue (high ++ second ++ low) := by
    rw [symbolValue_window]
    exact Nat.dvd_add (place.mul_left _) lowWhole
  have numbers := same.mul_left unit
  rw [Nat.mul_div_cancel' otherWhole, Nat.mul_div_cancel' whole, symbolValue_window,
    symbolValue_window, sameWidth] at numbers
  have coprime : Nat.Coprime 37 (32 ^ low.length) := Nat.Coprime.pow_right _ (by decide)
  have windows := (numbers.add_right_cancel' _).cancel_right_of_coprime coprime
  exact windows.add_left_cancel' _

/-- At the end the surplus bits are dropped from the window. -/
theorem byteValue_last (isData : groupedSymbols data = high ++ first)
    (sameWidth : second.length = first.length) (nonempty : 0 < first.length) :
    ∃ front, byteValue (groupedBytes (high ++ second)) =
        front + symbolValue second / 2 ^ surplus (symbolCount data.length) ∧
      byteValue data = front + symbolValue first / 2 ^ surplus (symbolCount data.length) := by
  rw [← List.append_nil (high ++ first)] at isData
  have place := pow_surplus_dvd_place data.length nonempty
  have positive : 0 < 2 ^ surplus (symbolCount data.length) := Nat.two_pow_pos _
  refine ⟨symbolValue high * 32 ^ first.length / 2 ^ surplus (symbolCount data.length), ?_, ?_⟩
  · rw [← List.append_nil (high ++ second), byteValue_window isData sameWidth, List.append_nil,
      symbolValue_append, sameWidth, Nat.add_div_of_dvd_right (place.mul_left _)]
  · rw [byteValue_eq isData, List.append_nil, symbolValue_append,
      Nat.add_div_of_dvd_right (place.mul_left _)]

variable (base32 : Base32Crate)

/-- Check characters agree exactly where the numbers do modulo 37. -/
theorem checkCharFor_eq_iff (first second : List UInt8) :
    checkCharFor first = checkCharFor second ↔ byteValue first ≡ byteValue second [MOD 37] := by
  rw [Nat.ModEq, ← checksum_eq, ← checksum_eq]
  constructor
  · intro same
    exact Fin.mk.inj (checkAlphabet_get_injective same)
  · intro same
    rw [checkCharFor, checkCharFor]
    congr 2

/-- With the check digit of some data a body is accepted if it is lenient and
decodes to bytes with the same remainder. -/
theorem accepts_iff (data bytes : List UInt8) (body : List Char) :
    decodeWithCheck base32 (String.ofList (body ++ [checkCharFor data])) = .ok bytes ↔
      (∀ ch ∈ body, Lenient ch) ∧ bytes = groupedBytes (symbolsOf body) ∧
        byteValue bytes ≡ byteValue data [MOD 37] := by
  rw [decodeWithCheck_eq_ok_iff, String.toList_ofList]
  constructor
  · rintro ⟨other, found, split, lenient, isDecoded, isDigit⟩
    obtain ⟨rfl, last⟩ := List.append_inj' split rfl
    rw [List.singleton_inj] at last
    exact ⟨lenient, isDecoded, (checkCharFor_eq_iff _ _).mp (isDigit.symm.trans last.symm)⟩
  · rintro ⟨lenient, isDecoded, same⟩
    exact ⟨body, _, rfl, lenient, isDecoded, ((checkCharFor_eq_iff _ _).mpr same).symm⟩

/-- A text with one character replaced. -/
def replaceChar (text : String) (position : Nat) (c : Char) : String :=
  String.ofList (text.toList.set position c)

/-- The bits of the encoded data without those of one character. -/
def bitsWithout (data : List UInt8) (position : Nat) : List Nat :=
  (paddedBits data).take (5 * position) ++ (paddedBits data).drop (5 * (position + 1))

/-- Without a character, the bits that make whole bytes spell a number with the
same remainder. -/
def HyphenCollides (data : List UInt8) (position : Nat) : Prop :=
  let bits := bitsWithout data position
  value 2 (bits.take (8 * (bits.length / 8))) % 37 = byteValue data % 37

instance (data : List UInt8) (position : Nat) : Decidable (HyphenCollides data position) :=
  inferInstanceAs (Decidable (_ = _))

/-- One symbol replaced by another one is detected. -/
theorem replaced_symbol_detected {symbol other : Symbol}
    (isData : groupedSymbols data = high ++ [symbol] ++ low)
    (same : byteValue (groupedBytes (high ++ [other] ++ low)) ≡ byteValue data [MOD 37]) :
    groupedBytes (high ++ [other] ++ low) = data := by
  have sameLength : (groupedBytes (high ++ [other] ++ low)).length = data.length := by
    have lengths := congrArg List.length (groupedBytes_groupedSymbols data)
    rw [← lengths, length_groupedBytes, length_groupedBytes, isData]
    simp
  cases low with
  | nil =>
      rw [List.append_nil] at isData same sameLength ⊢
      obtain ⟨front, isOther, isValue⟩ := byteValue_last isData
        (show [other].length = [symbol].length from rfl) (by simp)
      rw [isOther, isValue] at same
      have places := same.add_left_cancel' front
      have equal := Nat.ModEq.eq_of_lt_of_lt places
        ((Nat.div_le_self _ _).trans_lt (by rw [symbolValue_singleton]; omega))
        ((Nat.div_le_self _ _).trans_lt (by rw [symbolValue_singleton]; omega))
      exact eq_of_byteValue sameLength (by rw [isOther, isValue, equal])
  | cons next low =>
      have windows := modEq_of_inner isData (show [other].length = [symbol].length from rfl)
        (by simp) same
      rw [symbolValue_singleton, symbolValue_singleton] at windows
      have equal : other = symbol := by
        ext
        exact Nat.ModEq.eq_of_lt_of_lt windows (by omega) (by omega)
      rw [equal, ← isData, groupedBytes_groupedSymbols]

/-- Without a symbol the bits are those without its character. -/
theorem hyphenCollides_iff {symbol : Symbol}
    (isData : groupedSymbols data = high ++ [symbol] ++ low) :
    HyphenCollides data high.length ↔
      byteValue (groupedBytes (high ++ low)) ≡ byteValue data [MOD 37] := by
  have isBits : paddedBits data = symbolBits high ++ (symbolBits [symbol] ++ symbolBits low) := by
    rw [← symbolBits_groupedSymbols, isData]
    simp [symbolBits, spread]
  have remaining : bitsWithout data high.length = symbolBits (high ++ low) := by
    have front : 5 * high.length = (symbolBits high).length := (length_symbolBits high).symm
    have upTo : 5 * (high.length + 1) = (symbolBits high ++ symbolBits [symbol]).length := by
      rw [List.length_append, length_symbolBits, length_symbolBits, List.length_singleton]
      omega
    rw [bitsWithout, isBits, front, List.take_left, upTo, ← List.append_assoc, List.drop_left]
    simp [symbolBits, spread]
  rw [HyphenCollides, remaining, length_symbolBits, ← byteBits_groupedBytes, value_byteBits]
  rfl

/-- A symbol less is not the data. -/
theorem groupedBytes_without_ne {symbol : Symbol}
    (isData : groupedSymbols data = high ++ [symbol] ++ low) :
    groupedBytes (high ++ low) ≠ data := by
  intro same
  have lengths := congrArg List.length same
  rw [length_groupedBytes] at lengths
  have isCount := length_groupedSymbols data
  rw [isData, symbolCount] at isCount
  simp only [List.length_append, List.length_singleton] at lengths isCount
  omega

/-- Letters around a character are read as their symbols. -/
theorem symbolsOf_around (high low : List Symbol) (c : Char) :
    symbolsOf (high.map letter ++ [c] ++ low.map letter) = high ++ symbolsOf [c] ++ low := by
  rw [symbolsOf, List.filterMap_append, List.filterMap_append, ← symbolsOf, ← symbolsOf,
    ← symbolsOf, symbolsOf_letters, symbolsOf_letters]

/-- And are lenient if that character is. -/
theorem lenient_around_iff (high low : List Symbol) (c : Char) :
    (∀ ch ∈ high.map letter ++ [c] ++ low.map letter, Lenient ch) ↔ Lenient c := by
  simp only [List.forall_mem_append, List.forall_mem_singleton]
  exact ⟨fun all => all.1.2, fun isLenient =>
    ⟨⟨letters_lenient high, isLenient⟩, letters_lenient low⟩⟩

/-- A replaced character is detected, unless it is a hyphen over a character of the
body whose loss leaves a number with the same remainder. -/
theorem replaceChar_detected_iff (data : List UInt8) (position : Nat) (c : Char) :
    (∀ bytes, decodeWithCheck base32 (replaceChar (encodeWithCheck base32 data) position c) =
        .ok bytes → bytes = data) ↔
      ¬ (c = '-' ∧ position < (encode base32 data).toList.length ∧
        HyphenCollides data position) := by
  have isBody : (encode base32 data).toList = (groupedSymbols data).map letter := by
    rw [encode, base32.encode_eq, String.toList_ofList]
  rw [replaceChar, toList_encodeWithCheck, isBody, List.length_map]
  by_cases inBody : position < (groupedSymbols data).length
  · obtain ⟨high, symbol, low, isData, rfl⟩ :
        ∃ (high : List Symbol) (symbol : Symbol) (low : List Symbol),
          groupedSymbols data = high ++ [symbol] ++ low ∧ high.length = position := by
      refine ⟨(groupedSymbols data).take position, (groupedSymbols data)[position],
        (groupedSymbols data).drop (position + 1), ?_, List.length_take_of_le inBody.le⟩
      rw [List.append_assoc, List.singleton_append, ← List.drop_eq_getElem_cons,
        List.take_append_drop]
    have corrupted : ((groupedSymbols data).map letter ++ [checkCharFor data]).set high.length c =
        (high.map letter ++ [c] ++ low.map letter) ++ [checkCharFor data] := by
      rw [isData]
      simp
    simp only [corrupted, accepts_iff, symbolsOf_around, lenient_around_iff]
    by_cases isHyphen : c = '-'
    · subst isHyphen
      have noSymbol : symbolsOf ['-'] = [] := by decide
      rw [noSymbol, List.append_nil, hyphenCollides_iff isData]
      constructor
      · rintro detected ⟨_, _, collides⟩
        exact groupedBytes_without_ne isData (detected _ ⟨.inl rfl, rfl, collides⟩)
      · rintro differs bytes ⟨_, rfl, same⟩
        exact absurd ⟨rfl, inBody, same⟩ differs
    · refine ⟨fun _ hyphen => isHyphen hyphen.1, ?_⟩
      rintro _ bytes ⟨lenient, rfl, same⟩
      obtain ⟨other, isOther⟩ := Option.isSome_iff_exists.mp (lenient.resolve_left isHyphen)
      have isSymbol : symbolsOf [c] = [other] := by
        rw [symbolsOf, List.filterMap_cons, isOther, List.filterMap_nil]
      rw [isSymbol] at same ⊢
      exact replaced_symbol_detected isData same
  · refine ⟨fun _ hyphen => inBody hyphen.2.1, fun _ bytes accepted => ?_⟩
    obtain ⟨last, isLast⟩ : ∃ last, [checkCharFor data].set
        (position - ((groupedSymbols data).map letter).length) c = [last] := by
      cases position - ((groupedSymbols data).map letter).length with
      | zero => exact ⟨c, rfl⟩
      | succ => exact ⟨_, rfl⟩
    rw [List.set_append_right _ _ (by simpa using inBody), isLast,
      decodeWithCheck_eq_ok_iff, String.toList_ofList] at accepted
    obtain ⟨body, found, split, _, isDecoded, _⟩ := accepted
    obtain ⟨rfl, _⟩ := List.append_inj' split rfl
    rw [isDecoded, symbolsOf_letters, groupedBytes_groupedSymbols]

/-- A zero byte, its first letter overwritten by a hyphen: no byte is left, and the
check digit still holds. -/
theorem hyphen_accepted :
    ¬ ∀ bytes, decodeWithCheck .grouping
      (replaceChar (encodeWithCheck .grouping [0]) 0 '-') = .ok bytes → bytes = [0] := by
  intro detected
  have corrupted : replaceChar (encodeWithCheck .grouping [0]) 0 '-' =
      String.ofList (['-', '0'] ++ [checkCharFor [0]]) := by
    rw [replaceChar, toList_encodeWithCheck]
    congr 1
  have accepted : decodeWithCheck .grouping (replaceChar (encodeWithCheck .grouping [0]) 0 '-') =
      .ok [] := by
    rw [corrupted, accepts_iff]
    have lenient : Lenient '-' ∧ Lenient '0' := by decide
    exact ⟨List.forall_mem_cons.mpr ⟨lenient.1, List.forall_mem_singleton.mpr lenient.2⟩, by decide⟩
  cases detected [] accepted

/-- Swap the first two characters. -/
def swapFront : List Char → List Char
  | first :: second :: rest => second :: first :: rest
  | text => text

/-- A text with the characters at a position and the next one swapped. -/
def transposeChars (text : String) (position : Nat) : String :=
  String.ofList (text.toList.take position ++ swapFront (text.toList.drop position))

/-- The last two symbols that may be swapped unnoticed, given the number of bytes
modulo five: `K0`, `Q4`, `V8`, `ZC`; `K0`; `Z0`; `K0`, `V8`. -/
def undetectedEnds : Nat → List (List Symbol)
  | 1 => [[19, 0], [23, 4], [27, 8], [31, 12]]
  | 2 => [[19, 0]]
  | 3 => [[31, 0]]
  | 4 => [[19, 0], [27, 8]]
  | _ => []

/-- The ends that go undetected have two symbols. -/
theorem length_of_mem_undetectedEnds {residue : Nat} {symbols : List Symbol}
    (member : symbols ∈ undetectedEnds residue) : symbols.length = 2 := by
  have table : ∀ residue : Fin 5, ∀ symbols ∈ undetectedEnds residue, symbols.length = 2 := by
    decide
  by_cases small : residue < 5
  · exact table ⟨residue, small⟩ symbols member
  · match residue, member with
    | 0, _ | 1, _ | 2, _ | 3, _ | 4, _ => exact absurd (by decide) small

/-- The swap of the last two symbols of the data goes unnoticed. -/
def UndetectedSwap (data : List UInt8) (position : Nat) : Prop :=
  (groupedSymbols data).drop position ∈ undetectedEnds (data.length % 5)

instance (data : List UInt8) (position : Nat) : Decidable (UndetectedSwap data position) :=
  inferInstanceAs (Decidable (_ ∈ _))

/-- The surplus repeats every five bytes. -/
theorem surplus_symbolCount_mod (bytes : Nat) :
    surplus (symbolCount bytes) = surplus (symbolCount (bytes % 5)) := by
  have groups : symbolCount bytes = symbolCount (bytes % 5) + 8 * (bytes / 5) := by
    unfold symbolCount
    omega
  rw [groups]
  unfold surplus
  omega

/-- The number of two symbols. -/
theorem symbolValue_pair (first second : Symbol) :
    symbolValue [first, second] = first * 32 + second := by
  rw [← List.singleton_append, symbolValue_append, symbolValue_singleton, symbolValue_singleton]
  simp

/-- What a swap of the last two symbols does to the number, by the surplus. -/
theorem swapped_ends (residue : Fin 5) (first second : Symbol)
    (whole : 2 ^ surplus (symbolCount residue) ∣ second.val) :
    ((second * 32 + first : Nat) / 2 ^ surplus (symbolCount residue) % 37 =
        (first * 32 + second : Nat) / 2 ^ surplus (symbolCount residue) % 37 ∧
      (second * 32 + first : Nat) / 2 ^ surplus (symbolCount residue) ≠
        (first * 32 + second : Nat) / 2 ^ surplus (symbolCount residue)) ↔
      [first, second] ∈ undetectedEnds residue := by
  revert residue first second
  decide +kernel

/-- Two different symbols before the last one are not swapped unnoticed. -/
theorem eq_of_swap_modEq {a b : Symbol}
    (same : symbolValue [b, a] ≡ symbolValue [a, b] [MOD 37]) : a = b := by
  rw [symbolValue_pair, symbolValue_pair, Nat.ModEq] at same
  have first := a.isLt
  have second := b.isLt
  apply Fin.ext
  -- The values differ by 31 times the difference of the symbols, and 31 is prime to 37.
  omega

/-- Swapped symbols decode to other bytes with the same remainder exactly at the
undetected ends. -/
theorem swapped_symbols_undetected_iff {a b : Symbol}
    (isData : groupedSymbols data = high ++ [a, b] ++ low) :
    (byteValue (groupedBytes (high ++ [b, a] ++ low)) ≡ byteValue data [MOD 37] ∧
        groupedBytes (high ++ [b, a] ++ low) ≠ data) ↔ UndetectedSwap data high.length := by
  have sameLength : (groupedBytes (high ++ [b, a] ++ low)).length = data.length := by
    have lengths := congrArg List.length (groupedBytes_groupedSymbols data)
    rw [← lengths, length_groupedBytes, length_groupedBytes, isData]
    simp
  have isEnd : (groupedSymbols data).drop high.length = [a, b] ++ low := by
    rw [isData, List.append_assoc, List.drop_left]
  rw [UndetectedSwap, isEnd]
  cases low with
  | cons next low =>
      constructor
      · rintro ⟨same, differs⟩
        have width : [b, a].length = [a, b].length := rfl
        obtain rfl := eq_of_swap_modEq (modEq_of_inner isData width (by simp) same)
        rw [← isData, groupedBytes_groupedSymbols] at differs
        exact absurd rfl differs
      · intro member
        have length := length_of_mem_undetectedEnds member
        simp at length
  | nil =>
      rw [List.append_nil] at isData sameLength ⊢
      obtain ⟨front, isOther, isValue⟩ := byteValue_last isData
        (show [b, a].length = [a, b].length from rfl) (by simp)
      have whole : 2 ^ surplus (symbolCount (data.length % 5)) ∣ b.val := by
        have all := pow_surplus_dvd data
        rw [isData, show high ++ [a, b] = (high ++ [a]) ++ [b] by simp, symbolValue_append,
          symbolValue_singleton] at all
        rw [← surplus_symbolCount_mod]
        exact (Nat.dvd_add_right
          ((pow_surplus_dvd_place data.length (by simp)).mul_left _)).mp all
      have differs_iff : groupedBytes (high ++ [b, a]) ≠ data ↔
          byteValue (groupedBytes (high ++ [b, a])) ≠ byteValue data :=
        not_congr ⟨congrArg byteValue, eq_of_byteValue sameLength⟩
      have ends := swapped_ends ⟨data.length % 5, Nat.mod_lt _ (by decide)⟩ a b whole
      rw [differs_iff, isOther, isValue, symbolValue_pair, symbolValue_pair,
        surplus_symbolCount_mod, List.append_nil, Ne, Nat.add_left_cancel_iff]
      refine Iff.trans (and_congr_left' ?_) ends
      exact ⟨fun same => same.add_left_cancel' front, fun same => Nat.ModEq.add_left front same⟩

/-- Two adjacent characters of the body swapped are detected, unless they are the
last two and one of the undetected ends. -/
theorem transposeChars_detected_iff (data : List UInt8) (position : Nat)
    (inBody : position + 1 < (encode base32 data).toList.length) :
    (∀ bytes, decodeWithCheck base32 (transposeChars (encodeWithCheck base32 data) position) =
        .ok bytes → bytes = data) ↔ ¬ UndetectedSwap data position := by
  have isBody : (encode base32 data).toList = (groupedSymbols data).map letter := by
    rw [encode, base32.encode_eq, String.toList_ofList]
  rw [isBody, List.length_map] at inBody
  have isBefore : position < (groupedSymbols data).length := Nat.lt_of_succ_lt inBody
  obtain ⟨high, a, b, low, isData, rfl⟩ :
      ∃ (high : List Symbol) (a b : Symbol) (low : List Symbol),
        groupedSymbols data = high ++ [a, b] ++ low ∧ high.length = position := by
    refine ⟨(groupedSymbols data).take position, (groupedSymbols data)[position],
      (groupedSymbols data)[position + 1], (groupedSymbols data).drop (position + 2), ?_,
      List.length_take_of_le isBefore.le⟩
    rw [List.append_assoc, List.cons_append, List.singleton_append, ← List.drop_eq_getElem_cons,
      ← List.drop_eq_getElem_cons, List.take_append_drop]
  have corrupted : transposeChars (encodeWithCheck base32 data) high.length =
      String.ofList ((high ++ [b, a] ++ low).map letter ++ [checkCharFor data]) := by
    rw [transposeChars, toList_encodeWithCheck, isData]
    simp [swapFront]
  have lenient := letters_lenient (high ++ [b, a] ++ low)
  rw [← swapped_symbols_undetected_iff isData, corrupted]
  simp only [accepts_iff, symbolsOf_letters, not_and, not_not]
  constructor
  · intro detected same
    exact detected _ ⟨lenient, rfl, same⟩
  · rintro detected _ ⟨_, rfl, same⟩
    exact detected same

/-- `ZW` with its check digit, read as `WZ`, is rejected. -/
theorem transposeChars_detected_iff_last_two :
    ¬ UndetectedSwap [255] 0 ∧
      ∀ bytes, decodeWithCheck .grouping (transposeChars (encodeWithCheck .grouping [255]) 0) =
        .ok bytes → bytes = [255] := by
  have detected : ¬ UndetectedSwap [255] 0 := by decide
  refine ⟨detected, (transposeChars_detected_iff .grouping [255] 0 ?_).mpr detected⟩
  rw [encode, Base32Crate.grouping.encode_eq, String.toList_ofList]
  decide

/-- `K04` read as `0K4`: the surplus bits of the swapped ends are dropped, and the
byte that is left has the same check digit. -/
theorem swap_accepted :
    ¬ ∀ bytes, decodeWithCheck .grouping (transposeChars (encodeWithCheck .grouping [152]) 0) =
      .ok bytes → bytes = [152] := by
  intro detected
  have corrupted : transposeChars (encodeWithCheck .grouping [152]) 0 =
      String.ofList (['0', 'K'] ++ [checkCharFor [152]]) := by
    rw [transposeChars, toList_encodeWithCheck]
    congr 1
  have accepted : decodeWithCheck .grouping
      (transposeChars (encodeWithCheck .grouping [152]) 0) = .ok [4] := by
    rw [corrupted, accepts_iff]
    have lenient : Lenient '0' ∧ Lenient 'K' := by decide
    exact ⟨List.forall_mem_cons.mpr ⟨lenient.1, List.forall_mem_singleton.mpr lenient.2⟩, by decide⟩
  cases detected [4] accepted

end AltairRs.Base32
