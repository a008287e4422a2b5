import AltairRs.Base32.Crockford
import AltairRs.Effect.Except

/-!
# Bytes as Crockford text

`normalize` rewrites a text into the alphabet, or names its first bad character;
`encode` and `decode` go through the `base32` crate. `normalize` reads a text
exactly as `symbolOf` does, character by character.
-/

namespace AltairRs.Base32

open Effect Positional

/-- `altair_base32::Error`. -/
inductive Error where
  | invalidChar (ch : Char) (position : Nat)
  | checkMismatch (expected found : Char)
  | overflow
  | empty
deriving DecidableEq, Repr

/-- The text of an error; `debug` prints a character. -/
def Error.display (debug : Char → String) : Error → String
  | invalidChar ch position =>
      "invalid Crockford character " ++ debug ch ++ " at position " ++ toString position
  | checkMismatch expected found =>
      "check digit mismatch: expected '" ++ expected.toString ++ "', found '" ++ found.toString ++
        "'"
  | overflow => "decoded value overflows u64"
  | empty => "input is empty"

/-- The crate's result alias. -/
abbrev Result (α : Type) := Except Error α

/-- `is_crockford_letter`. -/
def isCrockfordLetter (ch : Char) : Bool :=
  'A' ≤ ch && ch ≤ 'H' || ch = 'J' || ch = 'K' || ch = 'M' || ch = 'N' ||
    'P' ≤ ch && ch ≤ 'T' || 'V' ≤ ch && ch ≤ 'Z'

/-- The match of `normalize`: what a character adds to the text, or `none`. -/
def normalizeChar (ch : Char) : Option (List Char) :=
  if ch = '-' then
    some []
  else if ch = '0' || ch = 'O' || ch = 'o' then
    some ['0']
  else if ch = '1' || ch = 'I' || ch = 'i' || ch = 'L' || ch = 'l' then
    some ['1']
  else if '2' ≤ ch && ch ≤ '9' then
    some [ch]
  else if 'a' ≤ ch && ch ≤ 'z' && isCrockfordLetter ch.toUpper then
    some [ch.toUpper]
  else if 'A' ≤ ch && ch ≤ 'Z' && isCrockfordLetter ch then
    some [ch]
  else
    none

/-- The loop of `normalize`, from a byte position on. -/
def normalizeFrom : Nat → List Char → Result (List Char)
  | _, [] => .ok []
  | position, ch :: rest =>
      match normalizeChar ch with
      | none => .error (.invalidChar ch position)
      | some added => do
          let out ← normalizeFrom (position + ch.utf8Size) rest
          return added ++ out

/-- `normalize`. -/
def normalize (text : String) : Result String := do
  let out ← normalizeFrom 0 text.toList
  return String.ofList out

/-- `encode`. -/
def encode (base32 : Base32Crate) (data : List UInt8) : String := base32.encode data

/-- `decode`. -/
def decode (base32 : Base32Crate) (text : String) : Result (List UInt8) := do
  let normalized ← normalize text
  match base32.decode normalized with
  | some bytes => return bytes
  | none => throw (.invalidChar '?' 0)

/-- A character without its case, with `I` and `L` as `1` and `O` as `0`. -/
def fold (ch : Char) : Char :=
  let upper := ch.toUpper
  if upper = 'I' ∨ upper = 'L' then '1' else if upper = 'O' then '0' else upper

/-- The symbol a character stands for. -/
def symbolOf (ch : Char) : Option Symbol := symbolOfLetter (fold ch)

/-- The symbols a text stands for; hyphens stand for none. -/
def symbolsOf (text : List Char) : List Symbol := text.filterMap symbolOf

/-- A hyphen or a character that stands for a symbol. -/
def Lenient (ch : Char) : Prop := ch = '-' ∨ (symbolOf ch).isSome

instance : DecidablePred Lenient := fun _ => inferInstanceAs (Decidable (_ ∨ _))

/-- A character beyond ASCII is no ASCII character. -/
theorem ne_of_wide {ch other : Char} (wide : 128 ≤ ch.toNat) (narrow : other.toNat < 128) :
    ch ≠ other := by
  rintro rfl
  omega

/-- It is in no range of ASCII characters. -/
theorem not_le_of_wide {ch other : Char} (wide : 128 ≤ ch.toNat) (narrow : other.toNat < 128) :
    ¬ ch ≤ other := by
  intro below
  have order : ch.toNat ≤ other.toNat := UInt32.le_iff_toNat_le.mp below
  omega

/-- Beyond ASCII every character is refused. -/
theorem normalizeChar_of_wide {ch : Char} (wide : 128 ≤ ch.toNat) : normalizeChar ch = none := by
  have table : ∀ other ∈ ['-', '0', 'O', 'o', '1', 'I', 'i', 'L', 'l'], ch ≠ other := by
    intro other member
    apply ne_of_wide wide
    simp only [List.mem_cons, List.not_mem_nil, or_false] at member
    rcases member with rfl | rfl | rfl | rfl | rfl | rfl | rfl | rfl | rfl <;> decide
  simp only [List.forall_mem_cons] at table
  have above : ∀ other : Char, other.toNat < 128 → ¬ ch ≤ other := fun _ => not_le_of_wide wide
  simp [normalizeChar, table, above '9' (by decide), above 'z' (by decide), above 'Z' (by decide)]

/-- It stands for no symbol. -/
theorem symbolOf_of_wide {ch : Char} (wide : 128 ≤ ch.toNat) : symbolOf ch = none := by
  have upper : ch.toUpper = ch := by
    have notLower : ¬ ('a'.val ≤ ch.val ∧ ch.val ≤ 'z'.val) := fun between =>
      not_le_of_wide wide (by decide) between.2
    exact dif_neg notLower
  have differs : ∀ other : Char, other.toNat < 128 → ch ≠ other := fun _ => ne_of_wide wide
  have folded : fold ch = ch := by
    simp [fold, upper, differs 'I' (by decide), differs 'L' (by decide), differs 'O' (by decide)]
  have narrow : ∀ symbol, (letter symbol).toNat < 128 := by decide
  rw [symbolOf, folded, symbolOfLetter, List.find?_eq_none]
  intro symbol _
  simpa using (differs _ (narrow symbol)).symm

/-- The match reads a character as `symbolOf` does. -/
theorem normalizeChar_eq (ch : Char) :
    normalizeChar ch =
      if ch = '-' then some [] else (symbolOf ch).map fun symbol => [letter symbol] := by
  by_cases ascii : ch.toNat < 128
  · have table : ∀ code : Fin 128, normalizeChar (Char.ofNat code) =
        if Char.ofNat code = '-' then some []
        else (symbolOf (Char.ofNat code)).map fun symbol => [letter symbol] := by
      decide +kernel
    simpa using table ⟨ch.toNat, ascii⟩
  · have wide : 128 ≤ ch.toNat := Nat.le_of_not_lt ascii
    rw [normalizeChar_of_wide wide, symbolOf_of_wide wide, if_neg (ne_of_wide wide (by decide))]
    rfl

/-- A hyphen stands for no symbol. -/
theorem symbolOf_hyphen : symbolOf '-' = none := by decide

@[simp] theorem symbolOf_letter (symbol : Symbol) : symbolOf (letter symbol) = some symbol := by
  revert symbol
  decide

/-- The letters of the alphabet are lenient. -/
theorem letter_lenient (symbol : Symbol) : Lenient (letter symbol) := by
  rw [Lenient, symbolOf_letter]
  exact .inr rfl

/-- So is every text of letters. -/
theorem letters_lenient (symbols : List Symbol) : ∀ ch ∈ symbols.map letter, Lenient ch :=
  List.forall_mem_map.mpr fun symbol _ => letter_lenient symbol

/-- Symbols are read character by character. -/
theorem symbolsOf_cons (ch : Char) (rest : List Char) :
    symbolsOf (ch :: rest) = symbolsOf [ch] ++ symbolsOf rest :=
  List.filterMap_append (l := [ch])

/-- The symbols of letters are those they were made of. -/
theorem symbolsOf_letters (symbols : List Symbol) : symbolsOf (symbols.map letter) = symbols := by
  have inverse : symbolOf ∘ letter = some := funext symbolOf_letter
  rw [symbolsOf, List.filterMap_map, inverse, List.filterMap_some]

/-- A lenient character adds the letters of the symbols it stands for. -/
theorem normalizeChar_of_lenient {ch : Char} (lenient : Lenient ch) :
    normalizeChar ch = some ((symbolsOf [ch]).map letter) := by
  rw [normalizeChar_eq, symbolsOf, List.filterMap_cons, List.filterMap_nil]
  rcases lenient with rfl | isSymbol
  · simp [symbolOf_hyphen]
  · obtain ⟨symbol, isSymbol⟩ := Option.isSome_iff_exists.mp isSymbol
    have notHyphen : ch ≠ '-' := by
      rintro rfl
      rw [symbolOf_hyphen] at isSymbol
      cases isSymbol
    simp [isSymbol, notHyphen]

/-- What is not lenient is not normalized. -/
theorem normalizeChar_of_not_lenient {ch : Char} (bad : ¬ Lenient ch) :
    normalizeChar ch = none := by
  obtain ⟨notHyphen, noSymbol⟩ := not_or.mp bad
  rw [normalizeChar_eq, if_neg notHyphen, Option.not_isSome_iff_eq_none.mp noSymbol]
  rfl

/-- A lenient text becomes the letters of its symbols. -/
theorem normalizeFrom_of_lenient (position : Nat) {text : List Char}
    (lenient : ∀ ch ∈ text, Lenient ch) :
    normalizeFrom position text = .ok ((symbolsOf text).map letter) := by
  induction text generalizing position with
  | nil => rfl
  | cons ch rest ih =>
      obtain ⟨first, later⟩ := List.forall_mem_cons.mp lenient
      rw [normalizeFrom, normalizeChar_of_lenient first, ih _ later, symbolsOf_cons ch rest,
        List.map_append]
      rfl

/-- The first bad character is named with its byte position. -/
theorem normalizeFrom_of_bad (position : Nat) {before after : List Char} {ch : Char}
    (lenient : ∀ ch ∈ before, Lenient ch) (bad : ¬ Lenient ch) :
    normalizeFrom position (before ++ ch :: after) =
      .error (.invalidChar ch (position + (String.ofList before).utf8ByteSize)) := by
  induction before generalizing position with
  | nil => rw [List.nil_append, normalizeFrom, normalizeChar_of_not_lenient bad]; rfl
  | cons other rest ih =>
      obtain ⟨first, later⟩ := List.forall_mem_cons.mp lenient
      have size : (String.ofList (other :: rest)).utf8ByteSize =
          other.utf8Size + (String.ofList rest).utf8ByteSize := by
        rw [← List.singleton_append, String.ofList_append, String.utf8ByteSize_append]
        simp
      rw [List.cons_append, normalizeFrom, normalizeChar_of_lenient first, ih _ later, size,
        ← Nat.add_assoc]
      rfl

/-- A lenient text is normalized to the letters of its symbols. -/
theorem normalize_of_lenient {text : String} (lenient : ∀ ch ∈ text.toList, Lenient ch) :
    normalize text = .ok (String.ofList ((symbolsOf text.toList).map letter)) := by
  rw [normalize, normalizeFrom_of_lenient 0 lenient]
  rfl

/-- The first character that is not lenient is reported, with its offset in bytes. -/
theorem normalize_of_bad {text : String} {before after : List Char} {ch : Char}
    (split : text.toList = before ++ ch :: after) (lenient : ∀ ch ∈ before, Lenient ch)
    (bad : ¬ Lenient ch) :
    normalize text = .error (.invalidChar ch (String.ofList before).utf8ByteSize) := by
  rw [normalize, split, normalizeFrom_of_bad 0 lenient bad, Nat.zero_add]
  rfl

/-- A text is lenient or has a first bad character. -/
theorem lenient_or_bad (text : List Char) :
    (∀ ch ∈ text, Lenient ch) ∨ ∃ before ch after, text = before ++ ch :: after ∧
      (∀ ch ∈ before, Lenient ch) ∧ ¬ Lenient ch := by
  induction text with
  | nil => exact .inl nofun
  | cons first rest ih =>
      by_cases lenient : Lenient first
      · rcases ih with all | ⟨before, ch, after, rfl, front, bad⟩
        · exact .inl (List.forall_mem_cons.mpr ⟨lenient, all⟩)
        · have lenientFront := List.forall_mem_cons.mpr ⟨lenient, front⟩
          exact .inr ⟨first :: before, ch, after, rfl, lenientFront, bad⟩
      · exact .inr ⟨[], first, rest, rfl, nofun, lenient⟩

/-- `normalize` accepts exactly the lenient texts. -/
theorem normalize_eq_ok_iff {text normalized : String} :
    normalize text = .ok normalized ↔ (∀ ch ∈ text.toList, Lenient ch) ∧
      normalized = String.ofList ((symbolsOf text.toList).map letter) := by
  constructor
  · intro isOk
    rcases lenient_or_bad text.toList with lenient | ⟨before, ch, after, split, front, bad⟩
    · rw [normalize_of_lenient lenient] at isOk
      exact ⟨lenient, (Except.ok.inj isOk).symm⟩
    · rw [normalize_of_bad split front bad] at isOk
      cases isOk
  · rintro ⟨lenient, rfl⟩
    exact normalize_of_lenient lenient

end AltairRs.Base32
