import Mathlib.Data.List.DropRight
import Mathlib.Data.List.TakeWhile

/-!
# Texts

White space and how it is trimmed, ASCII letters in their two cases, and what is left when a
text is split at a character.
-/

namespace Data

/-- White space: the property `White_Space`. -/
def isWhitespace (char : Char) : Bool :=
  let code := char.toNat
  9 ≤ code && code ≤ 13 || code = 32 || code = 0x85 || code = 0xA0 || code = 0x1680 ||
    0x2000 ≤ code && code ≤ 0x200A || code = 0x2028 || code = 0x2029 || code = 0x202F ||
    code = 0x205F || code = 0x3000

/-- A text without the white space around it. -/
def trim (text : List Char) : List Char :=
  (text.dropWhile isWhitespace).rdropWhile isWhitespace

/-- A trimmed text starts with no white space. -/
theorem isWhitespace_of_mem_head_trim {text : List Char} {letter : Char}
    (isFirst : letter ∈ (trim text).head?) : isWhitespace letter = false := by
  obtain ⟨blanks, isPart⟩ : trim text <+: text.dropWhile isWhitespace := List.rdropWhile_prefix _ _
  cases isTrimmed : trim text with
  | nil =>
      rw [isTrimmed] at isFirst
      cases isFirst
  | cons first rest =>
      rw [isTrimmed] at isFirst isPart
      obtain rfl := Option.some.inj isFirst
      have isHead : (text.dropWhile isWhitespace).head? = some first := by
        rw [← isPart]
        rfl
      have notBlank := List.head?_dropWhile_not isWhitespace text
      rw [isHead] at notBlank
      simpa using notBlank

/-- Nothing is trimmed of a text that neither starts nor ends with white space. -/
theorem trim_append {start rest : List Char}
    (first : ∀ letter ∈ start.head?, isWhitespace letter = false)
    (others : ∀ letter ∈ rest, isWhitespace letter = false) (isSome : rest ≠ []) :
    trim (start ++ rest) = start ++ rest := by
  have isFirst : (start ++ rest).dropWhile isWhitespace = start ++ rest := by
    cases start with
    | nil =>
        cases rest with
        | nil => rfl
        | cons letter rest =>
            exact List.dropWhile_cons_of_neg (by simp [others letter List.mem_cons_self])
    | cons letter start => exact List.dropWhile_cons_of_neg (by simp [first letter rfl])
  rw [trim, isFirst, List.rdropWhile_eq_self_iff]
  intro hasLast
  rw [List.getLast_append_of_ne_nil _ isSome, others _ (List.getLast_mem isSome)]
  exact Bool.false_ne_true

/-- The code of a letter in lower case. -/
theorem toNat_toLower (letter : Char) :
    letter.toLower.toNat =
      if 65 ≤ letter.toNat ∧ letter.toNat ≤ 90 then letter.toNat + 32 else letter.toNat := by
  have isRange : ('A'.val ≤ letter.val ∧ letter.val ≤ 'Z'.val) ↔
      65 ≤ letter.toNat ∧ letter.toNat ≤ 90 :=
    and_congr UInt32.le_iff_toNat_le UInt32.le_iff_toNat_le
  delta Char.toLower
  by_cases isUpper : 'A'.val ≤ letter.val ∧ letter.val ≤ 'Z'.val
  · rw [dif_pos isUpper, if_pos (isRange.mp isUpper)]
    have bound := (isRange.mp isUpper).2
    refine (UInt32.toNat_add _ _).trans ?_
    change (letter.toNat + 32) % 4294967296 = letter.toNat + 32
    omega
  · rw [dif_neg isUpper, if_neg (mt isRange.mpr isUpper)]

/-- The code of a letter in upper case. -/
theorem toNat_toUpper (letter : Char) :
    letter.toUpper.toNat =
      if 97 ≤ letter.toNat ∧ letter.toNat ≤ 122 then letter.toNat - 32 else letter.toNat := by
  have isRange : ('a'.val ≤ letter.val ∧ letter.val ≤ 'z'.val) ↔
      97 ≤ letter.toNat ∧ letter.toNat ≤ 122 :=
    and_congr UInt32.le_iff_toNat_le UInt32.le_iff_toNat_le
  delta Char.toUpper
  by_cases isLower : 'a'.val ≤ letter.val ∧ letter.val ≤ 'z'.val
  · rw [dif_pos isLower, if_pos (isRange.mp isLower)]
    have bounds := isRange.mp isLower
    have isOffset : ('A'.val - 'a'.val).toNat = 4294967264 := by decide
    refine (UInt32.toNat_add _ _).trans ?_
    rw [isOffset]
    change (letter.toNat + 4294967264) % 4294967296 = letter.toNat - 32
    omega
  · rw [dif_neg isLower, if_neg (mt isRange.mpr isLower)]

/-- In upper case and back. -/
theorem toLower_toUpper {letter : Char} (notUpper : ¬ (65 ≤ letter.toNat ∧ letter.toNat ≤ 90)) :
    letter.toUpper.toLower = letter := by
  apply Char.toNat_inj.mp
  rw [toNat_toLower, toNat_toUpper]
  split_ifs <;> omega

/-- White space has no cases. -/
theorem isWhitespace_toLower (letter : Char) :
    isWhitespace letter.toLower = isWhitespace letter := by
  unfold isWhitespace
  rw [toNat_toLower]
  split_ifs with isUpper
  · have isBlank {code : Nat} (inside : 65 ≤ code ∧ code ≤ 122) :
        (9 ≤ code && code ≤ 13 || code = 32 || code = 0x85 || code = 0xA0 || code = 0x1680 ||
          0x2000 ≤ code && code ≤ 0x200A || code = 0x2028 || code = 0x2029 || code = 0x202F ||
          code = 0x205F || code = 0x3000) = false := by
      simp
      omega
    exact (isBlank (by omega)).trans (isBlank (by omega)).symm
  · rfl

/-- A text in which one character stands for another is split as before. -/
theorem splitOn_replaced {old new : Char} {text : List Char} (notNew : new ∉ text) :
    (text.map fun letter => if letter = old then new else letter).splitOn new =
      text.splitOn old := by
  induction text with
  | nil => rfl
  | cons letter rest ih =>
      rw [List.mem_cons, not_or] at notNew
      rw [List.map_cons, List.splitOn_cons_eq_if_modifyHead, List.splitOn_cons_eq_if_modifyHead,
        ih notNew.2]
      by_cases isOld : letter = old
      · simp [isOld]
      · simp [isOld, Ne.symm notNew.1]

/-- A piece has only letters of the text, and no separator. -/
theorem mem_of_mem_splitOn {text piece : List Char} {separator letter : Char}
    (isPiece : piece ∈ text.splitOn separator) (inside : letter ∈ piece) :
    letter ∈ text ∧ letter ≠ separator := by
  induction text generalizing piece with
  | nil =>
      rw [List.splitOn_nil, List.mem_singleton] at isPiece
      rw [isPiece] at inside
      cases inside
  | cons first rest ih =>
      rw [List.splitOn_cons_eq_if_modifyHead] at isPiece
      have later (isLater : piece ∈ rest.splitOn separator) :
          letter ∈ first :: rest ∧ letter ≠ separator :=
        (ih isLater inside).imp_left (List.mem_cons_of_mem _)
      by_cases isSeparator : first = separator
      · rw [if_pos (beq_iff_eq.mpr isSeparator)] at isPiece
        rcases List.mem_cons.mp isPiece with rfl | isLater
        · cases inside
        · exact later isLater
      · rw [if_neg (by simpa using isSeparator)] at isPiece
        obtain ⟨head, others, isSplit⟩ :=
          List.exists_cons_of_ne_nil (List.splitOn_ne_nil separator rest)
        rw [isSplit] at isPiece ih later
        rcases List.mem_cons.mp isPiece with rfl | isLater
        · rcases List.mem_cons.mp inside with rfl | inHead
          · exact ⟨List.mem_cons_self, isSeparator⟩
          · exact (ih List.mem_cons_self inHead).imp_left (List.mem_cons_of_mem _)
        · exact later (List.mem_cons_of_mem _ isLater)

end Data
