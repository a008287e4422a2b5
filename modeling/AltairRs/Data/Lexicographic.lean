import Mathlib.Data.List.Lex
import AltairRs.Data.Positional

/-!
# Numerals in order

What keeps the lexicographic order of numerals: putting anything behind numerals of one
length, spelling every digit with a fixed width of digits of a smaller base, and filling
up with zeros as long as a longer numeral stays longer.
-/

namespace Positional

variable {base : Nat}

/-- Behind lists of one length only ties are decided. -/
theorem append_lt_append_iff {α : Type} [LT α] {first second : List α}
    (sameLength : first.length = second.length) (front back : List α) :
    first ++ front < second ++ back ↔ first < second ∨ first = second ∧ front < back := by
  induction first generalizing second with
  | nil =>
      rw [List.length_nil, eq_comm, List.length_eq_zero_iff] at sameLength
      rw [sameLength]
      simp
  | cons digit first ih =>
      obtain ⟨other, second, rfl⟩ := List.exists_cons_of_length_eq_add_one sameLength.symm
      rw [List.cons_append, List.cons_append, List.cons_lt_cons_iff, List.cons_lt_cons_iff,
        ih (Nat.succ.inj sameLength), List.cons.injEq]
      tauto

/-- The smaller number has the smaller numeral of a width that it fits. -/
theorem digits_lt {width first second : Nat} (large : 1 < base) (smaller : first < second)
    (fits : second < base ^ width) : digits base width first < digits base width second := by
  have isFirst : value base (digits base width first) = first := by
    rw [value_digits, Nat.mod_eq_of_lt (smaller.trans fits)]
  have isSecond : value base (digits base width second) = second := by
    rw [value_digits, Nat.mod_eq_of_lt fits]
  rcases lt_trichotomy (digits base width first) (digits base width second) with
    less | same | greater
  · exact less
  · rw [same, isSecond] at isFirst
    exact absurd isFirst smaller.ne'
  · have above := value_lt_value large (by simp) (fun _ => lt_of_mem_digits (by omega)) greater
    rw [isFirst, isSecond] at above
    exact absurd above smaller.asymm

/-- Spreading keeps the order. -/
theorem spread_lt {width : Nat} {first second : List Nat} (large : 1 < base) (wide : 0 < width)
    (small : ∀ digit ∈ second, digit < base ^ width) (smaller : first < second) :
    spread base width first < spread base width second := by
  induction first generalizing second with
  | nil =>
      cases second with
      | nil => exact absurd smaller (List.not_lt_nil _)
      | cons other second =>
          have isSome : spread base width (other :: second) ≠ [] := by
            rw [← List.length_pos_iff, length_spread]
            exact Nat.mul_pos wide (Nat.succ_pos _)
          obtain ⟨digit, rest, isCons⟩ := List.exists_cons_of_ne_nil isSome
          rw [isCons]
          exact List.nil_lt_cons ..
  | cons digit first ih =>
      cases second with
      | nil => exact absurd smaller (List.not_lt_nil _)
      | cons other second =>
          obtain ⟨otherSmall, restSmall⟩ := List.forall_mem_cons.mp small
          rw [spread, spread, List.flatMap_cons, List.flatMap_cons]
          rcases List.cons_lt_cons_iff.mp smaller with below | ⟨rfl, later⟩
          · exact (append_lt_append_iff (by simp) _ _).mpr (.inl (digits_lt large below otherSmall))
          · exact List.append_left_lt (ih restSmall later)

/-- Fewer zeros come before any longer numeral. -/
theorem zeros_lt {count : Nat} {numeral : List Nat} (longer : count < numeral.length) :
    List.replicate count 0 < numeral := by
  induction count generalizing numeral with
  | zero =>
      obtain ⟨digit, rest, rfl⟩ := List.exists_cons_of_length_pos longer
      exact List.nil_lt_cons ..
  | succ count ih =>
      obtain ⟨digit, rest, rfl⟩ := List.exists_cons_of_length_pos (Nat.zero_lt_of_lt longer)
      rw [List.replicate_succ, List.cons_lt_cons_iff]
      rcases Nat.eq_zero_or_pos digit with rfl | positive
      · exact .inr ⟨rfl, ih (Nat.lt_of_succ_lt_succ longer)⟩
      · exact .inl positive

/-- Zeros behind the smaller numeral keep the order, unless it grows past the other one. -/
theorem append_zeros_lt {count : Nat} {first second back : List Nat} (smaller : first < second)
    (room : first.length < second.length → first.length + count < (second ++ back).length) :
    first ++ List.replicate count 0 < second ++ back := by
  induction first generalizing second with
  | nil =>
      have isSome : ([] : List Nat).length < second.length := by
        rw [List.length_nil, List.length_pos_iff]
        rintro rfl
        exact List.not_lt_nil _ smaller
      have longer := room isSome
      rw [List.length_nil, Nat.zero_add] at longer
      exact zeros_lt longer
  | cons digit first ih =>
      cases second with
      | nil => exact absurd smaller (List.not_lt_nil _)
      | cons other second =>
          refine List.cons_lt_cons_iff.mpr ((List.cons_lt_cons_iff.mp smaller).imp_right ?_)
          rintro ⟨same, later⟩
          refine ⟨same, ih later fun shorter => ?_⟩
          have longer := room (Nat.succ_lt_succ shorter)
          simp only [List.cons_append, List.length_cons] at longer
          omega

end Positional
