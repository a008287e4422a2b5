import Mathlib.Computability.Language

/-!
# Languages of character classes

The words that a sequence of character classes accepts, as a regular expression
over classes writes them.
-/

namespace Data

open scoped Computability

variable {α : Type}

/-- One character of a class. -/
def charClass (accepts : α → Prop) : Language α :=
  { word | ∃ char, word = [char] ∧ accepts char }

/-- A repeated class accepts the words of its characters. -/
theorem mem_kstar_charClass {accepts : α → Prop} {word : List α} :
    word ∈ (charClass accepts)∗ ↔ ∀ char ∈ word, accepts char := by
  rw [Language.mem_kstar]
  constructor
  · rintro ⟨pieces, rfl, all⟩ char member
    obtain ⟨piece, inPieces, inPiece⟩ := List.mem_flatten.mp member
    obtain ⟨only, rfl, accepted⟩ := all piece inPieces
    rw [List.mem_singleton.mp inPiece]
    exact accepted
  · intro all
    refine ⟨word.map fun char => [char], ?_, ?_⟩
    · rw [← List.flatMap_def, List.flatMap_singleton']
    · intro piece member
      obtain ⟨char, inWord, rfl⟩ := List.mem_map.mp member
      exact ⟨char, rfl, all char inWord⟩

/-- A class before a repeated one accepts a first character and the rest. -/
theorem cons_mem_charClass_mul_kstar {first others : α → Prop} {char : α} {word : List α} :
    char :: word ∈ charClass first * (charClass others)∗ ↔
      first char ∧ ∀ other ∈ word, others other := by
  rw [Language.mem_mul]
  constructor
  · rintro ⟨_, ⟨head, rfl, accepted⟩, rest, inRest, same⟩
    obtain ⟨rfl, rfl⟩ := List.cons.inj same
    exact ⟨accepted, mem_kstar_charClass.mp inRest⟩
  · rintro ⟨accepted, all⟩
    exact ⟨[char], ⟨char, rfl, accepted⟩, word, mem_kstar_charClass.mpr all, rfl⟩

/-- It accepts no empty word. -/
theorem nil_notMem_charClass_mul_kstar {first others : α → Prop} :
    ([] : List α) ∉ charClass first * (charClass others)∗ := by
  rw [Language.mem_mul]
  rintro ⟨_, ⟨head, rfl, -⟩, rest, -, same⟩
  cases same

end Data
