import AltairRs.Base32.RoundTrip
import AltairRs.Base32.Sortable
import AltairRs.Data.Lexicographic

/-!
# Ids that sort

The example's ids: the text of a timestamp, then that of random bytes. `encode` keeps
the order of bytes, of whatever lengths, so the ids sort by time and then by their
random bytes, and `splitUlid` gives both back.
-/

namespace AltairRs.Base32

open Effect Positional

variable (base32 : Base32Crate)

/-- `ts_ms`: the milliseconds since the epoch, zero before it, as far as a `u64` goes. -/
def tsMs (sinceEpoch : Option Nat) : UInt64 :=
  let millis := sinceEpoch.getD 0
  if millis < 2 ^ 64 then UInt64.ofNat millis else UInt64.ofNat (2 ^ 64 - 1)

/-- `ulid_now`, at a time of the system's clock. -/
def ulidNow (sinceEpoch : Option Nat) (randomBytes : Vector UInt8 10) : String :=
  encodeU64 (tsMs sinceEpoch) ++ encode base32 randomBytes.toList

/-- The errors of `split_ulid`. -/
inductive UlidError where
  | bail (message : String)
  | base32 (error : Error)
deriving DecidableEq, Repr

/-- `&text[..index]` and `&text[index..]`; `none` is the panic inside a character or
past the end. -/
def splitAtByte : Nat → List Char → Option (List Char × List Char)
  | 0, rest => some ([], rest)
  | _ + 1, [] => none
  | index + 1, ch :: rest =>
      if ch.utf8Size ≤ index + 1 then
        (splitAtByte (index + 1 - ch.utf8Size) rest).map fun (front, back) => (ch :: front, back)
      else
        none

/-- `split_ulid`; `none` is its panic. -/
def splitUlid (ulid : String) : Option (Except UlidError (UInt64 × List UInt8)) := do
  if ulid.utf8ByteSize ≠ 13 + 16 then
    return .error (.bail ("expected 29-char ULID, got " ++ toString ulid.utf8ByteSize))
  let (front, back) ← splitAtByte 13 ulid.toList
  match ← decodeU64 (String.ofList front) with
  | .error e => return .error (.base32 e)
  | .ok ts =>
      match decode base32 (String.ofList back) with
      | .error e => return .error (.base32 e)
      | .ok rand => return .ok (ts, rand)

/-- Smaller bytes have the smaller bits, filled up. -/
theorem paddedBits_lt {first second : List UInt8} (smaller : first < second) :
    paddedBits first < paddedBits second := by
  have values : first.map UInt8.toNat < second.map UInt8.toNat :=
    List.map_lt (fun _ _ below => below) smaller
  have bits : byteBits first < byteBits second :=
    spread_lt (by decide) (by decide) lt_of_mem_bytes values
  refine append_zeros_lt bits fun shorter => ?_
  -- The zeros are fewer than the bits of one more byte.
  rw [length_byteBits, length_byteBits] at shorter
  rw [List.length_append, length_byteBits, length_byteBits, symbolCount]
  omega

/-- Smaller bytes have smaller symbols. -/
theorem groupedSymbols_lt {first second : List UInt8} (smaller : first < second) :
    groupedSymbols first < groupedSymbols second := by
  have bits := paddedBits_lt smaller
  rw [← symbolBits_groupedSymbols, ← symbolBits_groupedSymbols] at bits
  rcases lt_trichotomy (groupedSymbols first) (groupedSymbols second) with less | same | greater
  · exact less
  · rw [same] at bits
    exact absurd bits (List.lt_irrefl _)
  · have values : (groupedSymbols second).map Fin.val < (groupedSymbols first).map Fin.val :=
      List.map_lt (fun _ _ below => below) greater
    exact absurd bits (List.lt_asymm (spread_lt (by decide) (by decide) lt_of_mem_symbols values))

/-- The bytes of an encoding are those of its letters. -/
theorem asBytes_encode (data : List UInt8) :
    asBytes (encode base32 data) = (groupedSymbols data).map letterByte := by
  rw [encode, base32.encode_eq, asBytes_letters]

/-- Bytes among the bytes of their texts. -/
def encodeOrder : @LT.lt (List UInt8) _ ↪r @LT.lt (List UInt8) _ :=
  RelEmbedding.ofMonotone (fun data => asBytes (encode base32 data)) fun first second smaller => by
    rw [asBytes_encode, asBytes_encode]
    exact List.map_lt (fun _ _ => letterByte_lt) (groupedSymbols_lt smaller)

/-- Numbers among the bytes of their texts. -/
def encodeU64Order : @LT.lt UInt64 _ ↪r @LT.lt (List UInt8) _ :=
  RelEmbedding.ofMonotone (fun n => asBytes (encodeU64 n)) fun _ _ => asBytes_encodeU64_lt

/-- What the order of encodings compares. -/
theorem encodeOrder_apply (data : List UInt8) :
    encodeOrder base32 data = asBytes (encode base32 data) := rfl

/-- What the order of encoded numbers compares. -/
theorem encodeU64Order_apply (n : UInt64) : encodeU64Order n = asBytes (encodeU64 n) := rfl

/-- The bytes of a text are those of its parts. -/
theorem asBytes_append (front back : String) :
    asBytes (front ++ back) = asBytes front ++ asBytes back := by
  rw [asBytes, String.toList_append, List.flatMap_append]
  rfl

/-- What follows texts of numbers decides only between equal numbers. -/
theorem stamped_lt_iff (n m : UInt64) (first second : List UInt8) :
    asBytes (encodeU64 n ++ encode base32 first) < asBytes (encodeU64 m ++ encode base32 second) ↔
      n < m ∨ n = m ∧ first < second := by
  have sameLength : (asBytes (encodeU64 n)).length = (asBytes (encodeU64 m)).length := by
    rw [asBytes_encodeU64, asBytes_encodeU64, List.length_map, List.length_map,
      length_u64Symbols, length_u64Symbols]
  rw [asBytes_append, asBytes_append, append_lt_append_iff sameLength, ← encodeU64Order_apply,
    ← encodeU64Order_apply, ← encodeOrder_apply, ← encodeOrder_apply, encodeU64Order.map_rel_iff,
    encodeU64Order.injective.eq_iff, (encodeOrder base32).map_rel_iff]

/-- The size of a text is that of its characters. -/
theorem utf8ByteSize_cons (ch : Char) (rest : List Char) :
    (String.ofList (ch :: rest)).utf8ByteSize =
      ch.utf8Size + (String.ofList rest).utf8ByteSize := by
  rw [← List.singleton_append, String.ofList_append, String.utf8ByteSize_append]
  simp

/-- Every letter is one byte. -/
theorem utf8ByteSize_letters (symbols : List Symbol) :
    (String.ofList (symbols.map letter)).utf8ByteSize = symbols.length := by
  have single : ∀ symbol, (letter symbol).utf8Size = 1 := by decide
  induction symbols with
  | nil => rfl
  | cons symbol symbols ih =>
      rw [List.map_cons, utf8ByteSize_cons, single, ih, List.length_cons, Nat.add_comm]

/-- A cut falls between two characters. -/
theorem splitAtByte_eq_some_iff {index : Nat} {text front back : List Char} :
    splitAtByte index text = some (front, back) ↔
      text = front ++ back ∧ (String.ofList front).utf8ByteSize = index := by
  have positive : ∀ ch : Char, 0 < ch.utf8Size := Char.utf8Size_pos
  induction text generalizing index front with
  | nil =>
      rw [List.nil_eq_append_iff]
      constructor
      · intro isSplit
        cases index with
        | zero =>
            cases isSplit
            exact ⟨⟨rfl, rfl⟩, rfl⟩
        | succ index => cases isSplit
      · rintro ⟨⟨rfl, rfl⟩, rfl⟩
        rfl
  | cons ch text ih =>
      rw [List.cons_eq_append_iff]
      constructor
      · intro isSplit
        cases index with
        | zero =>
            cases isSplit
            exact ⟨.inl ⟨rfl, rfl⟩, rfl⟩
        | succ index =>
            simp only [splitAtByte] at isSplit
            split_ifs at isSplit with fits
            obtain ⟨⟨rest, _⟩, isRest, ⟨⟩⟩ := Option.map_eq_some_iff.mp isSplit
            obtain ⟨isText, isSize⟩ := ih.mp isRest
            refine ⟨.inr ⟨rest, rfl, isText⟩, ?_⟩
            rw [utf8ByteSize_cons, isSize]
            omega
      · rintro ⟨⟨rfl, rfl⟩ | ⟨rest, rfl, isText⟩, rfl⟩
        · rfl
        · rw [utf8ByteSize_cons]
          obtain ⟨index, isIndex⟩ : ∃ index,
              ch.utf8Size + (String.ofList rest).utf8ByteSize = index + 1 :=
            Nat.exists_eq_add_one.mpr (Nat.add_pos_left (positive ch) _)
          have left : index + 1 - ch.utf8Size = (String.ofList rest).utf8ByteSize := by omega
          rw [isIndex, splitAtByte, if_pos (by omega), left, ih.mpr ⟨isText, rfl⟩]
          rfl

/-- A cut panics where no character begins. -/
theorem splitAtByte_eq_none_iff {index : Nat} {text : List Char} :
    splitAtByte index text = none ↔
      ¬ ∃ front back, text = front ++ back ∧ (String.ofList front).utf8ByteSize = index := by
  rw [Option.eq_none_iff_forall_ne_some]
  simp only [ne_eq, Prod.forall, splitAtByte_eq_some_iff, not_exists]

/-- Decoding finds a value for every letter of a normalized text. -/
theorem decodeU64_ne_none (text : String) : decodeU64 text ≠ none := by
  rcases lenient_or_bad text.toList with lenient | ⟨before, ch, after, split, front, bad⟩
  · rw [decodeU64_of_lenient lenient]
    exact nofun
  · rw [decodeU64, normalize_of_bad split front bad]
    exact nofun

/-- What is encoded is decoded again. -/
theorem decode_encode (data : List UInt8) : decode base32 (encode base32 data) = .ok data := by
  have lenient := letters_lenient (groupedSymbols data)
  rw [encode, base32.encode_eq, decode_of_lenient base32 (by rwa [String.toList_ofList]),
    String.toList_ofList, symbolsOf_letters, groupedBytes_groupedSymbols]

/-- A number that is encoded is decoded again. -/
theorem decodeU64_encodeU64 (n : UInt64) : decodeU64 (encodeU64 n) = some (.ok n) := by
  have lenient := letters_lenient (u64Symbols n)
  rw [encodeU64_eq, decodeU64_of_lenient (by rwa [String.toList_ofList]), textValue,
    String.toList_ofList, symbolsOf_letters, symbolValue_u64Symbols, u64Result,
    if_pos n.toNat_lt, UInt64.ofNat_toNat]

/-- An id is cut where its timestamp ends. -/
theorem splitUlid_stamped (n : UInt64) (data : Vector UInt8 10) :
    splitUlid base32 (encodeU64 n ++ encode base32 data.toList) = some (.ok (n, data.toList)) := by
  have stampSize : (encodeU64 n).utf8ByteSize = 13 := by
    rw [encodeU64_eq, utf8ByteSize_letters, length_u64Symbols]
    rfl
  have dataSize : (encode base32 data.toList).utf8ByteSize = 16 := by
    rw [encode, base32.encode_eq, utf8ByteSize_letters, length_groupedSymbols,
      Vector.length_toList]
    rfl
  have cut : splitAtByte 13 (encodeU64 n ++ encode base32 data.toList).toList =
      some ((encodeU64 n).toList, (encode base32 data.toList).toList) := by
    rw [splitAtByte_eq_some_iff, String.ofList_toList]
    exact ⟨String.toList_append, stampSize⟩
  rw [splitUlid, String.utf8ByteSize_append, stampSize, dataSize, cut]
  simp [decodeU64_encodeU64, decode_encode]

/-- Texts of bytes sort as the bytes. Ids sort by time and then by their random bytes,
and split into both again. No other text makes the split panic than one of an id's
length with a character across its thirteenth byte. -/
theorem ulids_sort :
    (∀ first second : List UInt8,
      asBytes (encode base32 first) < asBytes (encode base32 second) ↔ first < second) ∧
    (∀ (first second : Option Nat) (firstBytes secondBytes : Vector UInt8 10),
      asBytes (ulidNow base32 first firstBytes) < asBytes (ulidNow base32 second secondBytes) ↔
        tsMs first < tsMs second ∨
          tsMs first = tsMs second ∧ firstBytes.toList < secondBytes.toList) ∧
    (∀ (sinceEpoch : Option Nat) (randomBytes : Vector UInt8 10),
      splitUlid base32 (ulidNow base32 sinceEpoch randomBytes) =
        some (.ok (tsMs sinceEpoch, randomBytes.toList))) ∧
    ∀ ulid, splitUlid base32 ulid = none ↔ ulid.utf8ByteSize = 29 ∧
      ¬ ∃ front back, ulid.toList = front ++ back ∧ (String.ofList front).utf8ByteSize = 13 := by
  refine ⟨fun first second => (encodeOrder base32).map_rel_iff, fun first second _ _ => ?_,
    fun sinceEpoch => ?_, fun ulid => ?_⟩
  · exact stamped_lt_iff base32 (tsMs first) (tsMs second) _ _
  · exact splitUlid_stamped base32 (tsMs sinceEpoch)
  · rw [← splitAtByte_eq_none_iff]
    by_cases long : ulid.utf8ByteSize = 29
    · cases cut : splitAtByte 13 ulid.toList with
      | none => simp [splitUlid, long, cut]
      | some halves =>
          obtain ⟨read, isRead⟩ :=
            Option.ne_none_iff_exists'.mp (decodeU64_ne_none (String.ofList halves.1))
          simp only [splitUlid, long, cut]
          cases read with
          | error e => simp [isRead]
          | ok ts =>
              cases isRest : decode base32 (String.ofList halves.2) with
              | error e => simp [isRead, isRest]
              | ok rand => simp [isRead, isRest]
    · simp [splitUlid, long]

end AltairRs.Base32
