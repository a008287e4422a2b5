import AltairRs.Base32.Bytes

/-!
# The lenient round trip

A text that respells an encoding decodes to the encoded bytes, and `decode`
refuses exactly the texts with a character outside the lenient set.
-/

namespace AltairRs.Base32

variable (base32 : Base32Crate)

/-- The ways a letter of the alphabet may be spelled. -/
def Spelling (canonical spelled : Char) : Prop :=
  spelled = canonical ∨ spelled = canonical.toLower ∨
    canonical = '1' ∧ spelled ∈ ['I', 'i', 'L', 'l'] ∨
    canonical = '0' ∧ spelled ∈ ['O', 'o']

/-- The text with its letters respelled and hyphens inserted. -/
inductive Respells : List Char → List Char → Prop where
  | nil : Respells [] []
  | hyphen {canonical text} (rest : Respells canonical text) : Respells canonical ('-' :: text)
  | spell {first canonical spelled text} (spelling : Spelling first spelled)
      (rest : Respells canonical text) : Respells (first :: canonical) (spelled :: text)

/-- Every spelling stands for the symbol. -/
theorem Spelling.symbol {symbol : Symbol} {spelled : Char}
    (spelling : Spelling (letter symbol) spelled) : symbolOf spelled = some symbol := by
  rcases spelling with rfl | rfl | ⟨isOne, member⟩ | ⟨isZero, member⟩
  · exact symbolOf_letter symbol
  · revert symbol
    decide
  · have one : symbol = 1 := letter_injective isOne
    rw [one]
    simp only [List.mem_cons, List.not_mem_nil, or_false] at member
    rcases member with rfl | rfl | rfl | rfl <;> decide
  · have zero : symbol = 0 := letter_injective isZero
    rw [zero]
    simp only [List.mem_cons, List.not_mem_nil, or_false] at member
    rcases member with rfl | rfl <;> decide

/-- A respelled text is lenient and stands for the same symbols. -/
theorem Respells.reads {symbols : List Symbol} {text : List Char}
    (respells : Respells (symbols.map letter) text) :
    (∀ ch ∈ text, Lenient ch) ∧ symbolsOf text = symbols := by
  generalize isCanonical : symbols.map letter = canonical at respells
  induction respells generalizing symbols with
  | nil =>
      rw [List.map_eq_nil_iff.mp isCanonical]
      exact ⟨nofun, rfl⟩
  | hyphen _ ih =>
      obtain ⟨lenient, same⟩ := ih isCanonical
      exact ⟨List.forall_mem_cons.mpr ⟨.inl rfl, lenient⟩, same⟩
  | spell spelling _ ih =>
      obtain ⟨symbol, later, rfl, rfl, isRest⟩ := List.map_eq_cons_iff.mp isCanonical
      obtain ⟨lenient, same⟩ := ih isRest
      have isSymbol := spelling.symbol
      refine ⟨List.forall_mem_cons.mpr ⟨.inr (by rw [isSymbol]; rfl), lenient⟩, ?_⟩
      rw [symbolsOf_cons, same, symbolsOf, List.filterMap_cons, isSymbol]
      rfl

/-- A lenient text decodes to the bytes of its symbols. -/
theorem decode_of_lenient {text : String} (lenient : ∀ ch ∈ text.toList, Lenient ch) :
    decode base32 text = .ok (groupedBytes (symbolsOf text.toList)) := by
  rw [decode, normalize_of_lenient lenient]
  simp only [bind, Except.bind, base32.decode_eq]
  rfl

/-- Decoding reports the first character that is not lenient. -/
theorem decode_of_bad {text : String} {before after : List Char} {ch : Char}
    (split : text.toList = before ++ ch :: after) (lenient : ∀ other ∈ before, Lenient other)
    (bad : ¬ Lenient ch) :
    decode base32 text = .error (.invalidChar ch (String.ofList before).utf8ByteSize) := by
  rw [decode, normalize_of_bad split lenient bad]
  rfl

/-- Respelled encodings decode to what was encoded; `decode` accepts exactly the
lenient texts, names the first bad character of every other text, and never
comes to its defensive error. -/
theorem decode_lenient :
    (∀ data text, Respells (encode base32 data).toList text.toList →
      decode base32 text = .ok data) ∧
    ∀ text,
      ((∃ bytes, decode base32 text = .ok bytes) ↔ ∀ ch ∈ text.toList, Lenient ch) ∧
      (∀ before ch after, text.toList = before ++ ch :: after →
        (∀ other ∈ before, Lenient other) → ¬ Lenient ch →
          decode base32 text = .error (.invalidChar ch (String.ofList before).utf8ByteSize)) ∧
      ∀ normalized, normalize text = .ok normalized → base32.decode normalized ≠ none := by
  refine ⟨fun data text respells => ?_, fun text => ⟨⟨?_, fun lenient => ?_⟩, ?_, ?_⟩⟩
  · rw [encode, base32.encode_eq, String.toList_ofList] at respells
    obtain ⟨lenient, same⟩ := respells.reads
    rw [decode_of_lenient base32 lenient, same, groupedBytes_groupedSymbols]
  · rintro ⟨bytes, isOk⟩
    rcases lenient_or_bad text.toList with lenient | ⟨before, ch, after, split, front, bad⟩
    · exact lenient
    · rw [decode_of_bad base32 split front bad] at isOk
      cases isOk
  · exact ⟨_, decode_of_lenient base32 lenient⟩
  · exact fun before ch after split front bad => decode_of_bad base32 split front bad
  · intro normalized isNormalized
    obtain ⟨_, rfl⟩ := normalize_eq_ok_iff.mp isNormalized
    rw [base32.decode_eq]
    exact nofun

end AltairRs.Base32
