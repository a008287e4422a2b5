import Mathlib.Data.List.FinRange
import AltairRs.Data.Positional

/-!
# The `base32` crate

The Crockford alphabet, and the two functions of the `base32` crate as a
structure: what is relied on is that bits are grouped by five, the most
significant first, padded with zeros when encoded, and that the surplus bits are
dropped when decoded. `Base32Crate.grouping` is such a pair of functions.
-/

namespace AltairRs.Base32

open Positional

/-- A digit of base 32. -/
abbrev Symbol := Fin 32

-- One proof for every literal below.
instance symbol_neZero : NeZero 32 := ⟨by decide⟩

/-- The alphabet: digits and capitals without `I`, `L`, `O` and `U`. -/
def alphabet : Vector Char 32 :=
  #v['0', '1', '2', '3', '4', '5', '6', '7', '8', '9', 'A', 'B', 'C', 'D', 'E', 'F', 'G', 'H', 'J',
    'K', 'M', 'N', 'P', 'Q', 'R', 'S', 'T', 'V', 'W', 'X', 'Y', 'Z']

/-- The letter of a symbol. -/
def letter (symbol : Symbol) : Char := alphabet[symbol]

/-- Different symbols have different letters. -/
theorem letter_injective : Function.Injective letter := by
  have distinct : ∀ first second, letter first = letter second → first = second := by decide
  exact fun first second => distinct first second

/-- The bits of bytes. -/
abbrev byteBits (bytes : List UInt8) : List Nat := spread 2 8 (bytes.map UInt8.toNat)

/-- The bits of symbols. -/
abbrev symbolBits (symbols : List Symbol) : List Nat := spread 2 5 (symbols.map Fin.val)

/-- The big-endian integer of bytes. -/
abbrev byteValue (bytes : List UInt8) : Nat := value 256 (bytes.map UInt8.toNat)

/-- The integer of symbols, the most significant first. -/
abbrev symbolValue (symbols : List Symbol) : Nat := value 32 (symbols.map Fin.val)

/-- One more byte at the end. -/
theorem byteValue_concat (bytes : List UInt8) (byte : UInt8) :
    byteValue (bytes ++ [byte]) = byteValue bytes * 256 + byte.toNat := by
  rw [byteValue, List.map_append, List.map_singleton, value_concat]

/-- One symbol is its own number. -/
theorem symbolValue_singleton (symbol : Symbol) : symbolValue [symbol] = symbol := by
  rw [symbolValue, List.map_singleton, value_singleton]

/-- The front counts for as many places as are behind it. -/
theorem symbolValue_append (high low : List Symbol) :
    symbolValue (high ++ low) = symbolValue high * 32 ^ low.length + symbolValue low := by
  rw [symbolValue, List.map_append, value_append, List.length_map]

/-- Bytes are digits of eight bits. -/
theorem lt_of_mem_bytes {bytes : List UInt8} : ∀ digit ∈ bytes.map UInt8.toNat, digit < 2 ^ 8 := by
  intro digit member
  obtain ⟨byte, _, rfl⟩ := List.mem_map.mp member
  exact byte.toNat_lt

/-- Symbols are digits of five bits. -/
theorem lt_of_mem_symbols {symbols : List Symbol} :
    ∀ digit ∈ symbols.map Fin.val, digit < 2 ^ 5 := by
  intro digit member
  obtain ⟨symbol, _, rfl⟩ := List.mem_map.mp member
  exact symbol.isLt

/-- The bits of bytes have their number. -/
theorem value_byteBits (bytes : List UInt8) : value 2 (byteBits bytes) = byteValue bytes :=
  value_spread lt_of_mem_bytes

/-- The bits of symbols have their number. -/
theorem value_symbolBits (symbols : List Symbol) :
    value 2 (symbolBits symbols) = symbolValue symbols :=
  value_spread lt_of_mem_symbols

/-- A byte has eight bits. -/
theorem length_byteBits (bytes : List UInt8) : (byteBits bytes).length = 8 * bytes.length := by
  rw [length_spread, List.length_map]

/-- A symbol has five bits. -/
theorem length_symbolBits (symbols : List Symbol) :
    (symbolBits symbols).length = 5 * symbols.length := by
  rw [length_spread, List.length_map]

/-- Bytes are known by their bits. -/
theorem byteBits_injective {first second : List UInt8} (same : byteBits first = byteBits second) :
    first = second :=
  (List.map_injective_iff.mpr fun _ _ => UInt8.toNat_inj.mp)
    (spread_injective (by decide) (by decide) lt_of_mem_bytes lt_of_mem_bytes same)

/-- Symbols are known by their bits. -/
theorem symbolBits_injective {first second : List Symbol}
    (same : symbolBits first = symbolBits second) : first = second :=
  (List.map_injective_iff.mpr Fin.val_injective)
    (spread_injective (by decide) (by decide) lt_of_mem_symbols lt_of_mem_symbols same)

/-- `base32::encode` and `base32::decode` with `Alphabet::Crockford`. -/
structure Base32Crate where
  encode : List UInt8 → String
  decode : String → Option (List UInt8)
  encode_groups : ∀ data, ∃ symbols padding, encode data = String.ofList (symbols.map letter) ∧
    padding < 5 ∧ symbolBits symbols = byteBits data ++ List.replicate padding 0
  decode_groups : ∀ symbols, ∃ bytes surplus,
    decode (String.ofList (symbols.map letter)) = some bytes ∧
      surplus.length < 8 ∧ symbolBits symbols = byteBits bytes ++ surplus

/-- How many symbols so many bytes take. -/
def symbolCount (bytes : Nat) : Nat := (8 * bytes + 4) / 5

/-- The bits of bytes, with zeros up to whole symbols. -/
def paddedBits (data : List UInt8) : List Nat :=
  byteBits data ++ List.replicate (5 * symbolCount data.length - 8 * data.length) 0

/-- The padding fills the last symbol. -/
theorem length_paddedBits (data : List UInt8) :
    (paddedBits data).length = 5 * symbolCount data.length := by
  rw [paddedBits, List.length_append, length_byteBits, List.length_replicate, symbolCount]
  omega

/-- What is padded with is a bit. -/
theorem lt_of_mem_paddedBits {data : List UInt8} : ∀ bit ∈ paddedBits data, bit < 2 := by
  intro bit member
  rcases List.mem_append.mp member with inData | isPadding
  · exact lt_of_mem_spread (by decide) inData
  · rw [(List.mem_replicate.mp isPadding).2]
    decide

/-- The padded bits, grouped by five. -/
def groupedSymbols (data : List UInt8) : List Symbol :=
  (gather 2 5 (symbolCount data.length) (paddedBits data)).map (Fin.ofNat 32)

/-- The bits of symbols, grouped by eight as far as they go. -/
def groupedBytes (symbols : List Symbol) : List UInt8 :=
  (gather 2 8 (5 * symbols.length / 8) (symbolBits symbols)).map UInt8.ofNat

/-- The symbols of bytes hold the padded bits. -/
theorem symbolBits_groupedSymbols (data : List UInt8) :
    symbolBits (groupedSymbols data) = paddedBits data := by
  have values : (groupedSymbols data).map Fin.val =
      gather 2 5 (symbolCount data.length) (paddedBits data) := by
    rw [groupedSymbols, List.map_map]
    apply (List.map_congr_left ?_).trans (List.map_id _)
    intro digit member
    exact Nat.mod_eq_of_lt (lt_of_mem_gather (by decide) lt_of_mem_paddedBits member)
  rw [symbolBits, values,
    spread_gather (by decide) lt_of_mem_paddedBits (length_paddedBits data).ge]
  exact List.take_of_length_le (length_paddedBits data).le

/-- The bytes of symbols hold the front of the bits, in whole bytes. -/
theorem byteBits_groupedBytes (symbols : List Symbol) :
    byteBits (groupedBytes symbols) =
      (symbolBits symbols).take (8 * (5 * symbols.length / 8)) := by
  have small : ∀ bit ∈ symbolBits symbols, bit < 2 := fun bit =>
    lt_of_mem_spread (by decide)
  have values : (groupedBytes symbols).map UInt8.toNat =
      gather 2 8 (5 * symbols.length / 8) (symbolBits symbols) := by
    rw [groupedBytes, List.map_map]
    apply (List.map_congr_left ?_).trans (List.map_id _)
    intro digit member
    exact UInt8.toNat_ofNat_of_lt' (lt_of_mem_gather (by decide) small member)
  rw [byteBits, values, spread_gather (by decide) small]
  rw [length_symbolBits]
  omega

/-- The symbol of a letter. -/
def symbolOfLetter (ch : Char) : Option Symbol :=
  (List.finRange 32).find? fun symbol => letter symbol = ch

/-- A letter is read as its symbol. -/
theorem symbolOfLetter_letter (symbol : Symbol) : symbolOfLetter (letter symbol) = some symbol := by
  revert symbol
  decide

/-- The two functions by grouping; a text with another character is refused. -/
def Base32Crate.grouping : Base32Crate where
  encode data := String.ofList ((groupedSymbols data).map letter)
  decode text := (text.toList.mapM symbolOfLetter).map groupedBytes
  encode_groups data := by
    refine ⟨groupedSymbols data, _, rfl, ?_, symbolBits_groupedSymbols data⟩
    rw [symbolCount]
    omega
  decode_groups symbols := by
    have isRead : (symbols.map letter).mapM symbolOfLetter = some symbols := by
      induction symbols with
      | nil => rfl
      | cons symbol symbols ih =>
          rw [List.map_cons, List.mapM_cons, symbolOfLetter_letter, ih]
          rfl
    refine ⟨groupedBytes symbols, (symbolBits symbols).drop (8 * (5 * symbols.length / 8)), ?_,
      ?_, ?_⟩
    · rw [String.toList_ofList, isRead]
      rfl
    · rw [List.length_drop, length_symbolBits]
      omega
    · rw [byteBits_groupedBytes, List.take_append_drop]

/-- As many symbols as are needed. -/
theorem length_groupedSymbols (data : List UInt8) :
    (groupedSymbols data).length = symbolCount data.length := by
  have lengths := congrArg List.length (symbolBits_groupedSymbols data)
  rw [length_symbolBits, length_paddedBits] at lengths
  exact Nat.eq_of_mul_eq_mul_left (by decide) lengths

/-- As many bytes as are full. -/
theorem length_groupedBytes (symbols : List Symbol) :
    (groupedBytes symbols).length = 5 * symbols.length / 8 := by
  have lengths := congrArg List.length (byteBits_groupedBytes symbols)
  rw [length_byteBits, List.length_take, length_symbolBits] at lengths
  omega

/-- What was grouped by five is grouped by eight again. -/
theorem groupedBytes_groupedSymbols (data : List UInt8) :
    groupedBytes (groupedSymbols data) = data := by
  apply byteBits_injective
  have whole : 8 * (5 * symbolCount data.length / 8) = (byteBits data).length := by
    rw [length_byteBits, symbolCount]
    omega
  rw [byteBits_groupedBytes, symbolBits_groupedSymbols, length_groupedSymbols, whole, paddedBits,
    List.take_left]

/-- The law of `encode` leaves one result. -/
theorem Base32Crate.encode_eq (base32 : Base32Crate) (data : List UInt8) :
    base32.encode data = String.ofList ((groupedSymbols data).map letter) := by
  obtain ⟨symbols, padding, isEncoded, short, bits⟩ := base32.encode_groups data
  have isPadding : padding = 5 * symbolCount data.length - 8 * data.length := by
    have lengths := congrArg List.length bits
    rw [length_symbolBits, List.length_append, length_byteBits, List.length_replicate] at lengths
    rw [symbolCount]
    omega
  have same : symbolBits symbols = symbolBits (groupedSymbols data) := by
    rw [bits, isPadding, symbolBits_groupedSymbols, paddedBits]
  rw [isEncoded, symbolBits_injective same]

/-- The law of `decode` leaves one result. -/
theorem Base32Crate.decode_eq (base32 : Base32Crate) (symbols : List Symbol) :
    base32.decode (String.ofList (symbols.map letter)) = some (groupedBytes symbols) := by
  obtain ⟨bytes, surplus, isDecoded, short, bits⟩ := base32.decode_groups symbols
  have whole : 8 * (5 * symbols.length / 8) = (byteBits bytes).length := by
    have lengths := congrArg List.length bits
    rw [length_symbolBits, List.length_append, length_byteBits] at lengths
    rw [length_byteBits]
    omega
  have same : byteBits (groupedBytes symbols) = byteBits bytes := by
    rw [byteBits_groupedBytes, bits, whole, List.take_left]
  rw [isDecoded, byteBits_injective same]

end AltairRs.Base32
