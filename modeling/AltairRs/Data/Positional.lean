import Mathlib.Algebra.BigOperators.Group.List.Basic
import Mathlib.Data.List.Induction
import Mathlib.Data.Nat.Digits.Defs

/-!
# Positional notation

Numerals of a base, the most significant digit first: the number a numeral
spells, the numeral of a fixed width, and the regrouping of digits into digits
of a power of the base. The laws of Mathlib's `Nat.ofDigits`, which reads the
least significant digit first, carry over.
-/

namespace Positional

/-- The number a numeral spells. -/
def value (base : Nat) (numeral : List Nat) : Nat := Nat.ofDigits base numeral.reverse

/-- The last so many digits of a number. -/
def digits (base : Nat) : Nat → Nat → List Nat
  | 0, _ => []
  | width + 1, number => digits base width (number / base) ++ [number % base]

variable {base : Nat}

@[simp] theorem value_nil : value base [] = 0 := rfl

@[simp] theorem value_singleton (digit : Nat) : value base [digit] = digit := by
  simp [value]

/-- The first numeral counts by the places of the second. -/
theorem value_append (high low : List Nat) :
    value base (high ++ low) = value base high * base ^ low.length + value base low := by
  rw [value, List.reverse_append, Nat.ofDigits_append, List.length_reverse, value, value]
  rw [Nat.add_comm, Nat.mul_comm]

/-- One more digit at the end. -/
theorem value_concat (numeral : List Nat) (digit : Nat) :
    value base (numeral ++ [digit]) = value base numeral * base + digit := by
  rw [value_append, value_singleton, List.length_singleton, Nat.pow_one]

/-- One more digit in front. -/
theorem value_cons (digit : Nat) (numeral : List Nat) :
    value base (digit :: numeral) = digit * base ^ numeral.length + value base numeral := by
  rw [← List.singleton_append, value_append, value_singleton]

@[simp] theorem value_replicate_zero (count : Nat) :
    value base (List.replicate count 0) = 0 := by
  rw [value, List.reverse_replicate, Nat.ofDigits_replicate_zero]

/-- A numeral of so many digits is below that power of the base. -/
theorem value_lt {numeral : List Nat} (large : 1 < base) (small : ∀ digit ∈ numeral, digit < base) :
    value base numeral < base ^ numeral.length := by
  rw [value, ← List.length_reverse]
  exact Nat.ofDigits_lt_base_pow_length large fun digit member =>
    small digit (List.mem_reverse.mp member)

/-- Numerals of one width that spell one number are the same. -/
theorem value_injective {first second : List Nat} (large : 1 < base)
    (sameWidth : first.length = second.length) (firstSmall : ∀ digit ∈ first, digit < base)
    (secondSmall : ∀ digit ∈ second, digit < base)
    (same : value base first = value base second) : first = second := by
  apply List.reverse_injective
  apply Nat.ofDigits_inj_of_len_eq large
  · simpa using sameWidth
  · simpa using firstSmall
  · simpa using secondSmall
  · exact same

/-- Of two numerals of one width the lexicographically smaller one spells the smaller
number. -/
theorem value_lt_value {first second : List Nat} (large : 1 < base)
    (sameWidth : first.length = second.length) (firstSmall : ∀ digit ∈ first, digit < base)
    (smaller : first < second) : value base first < value base second := by
  induction first generalizing second with
  | nil =>
      rw [List.length_nil, eq_comm, List.length_eq_zero_iff] at sameWidth
      exact absurd (sameWidth ▸ smaller) (List.not_lt_nil _)
  | cons digit first ih =>
      obtain ⟨other, second, rfl⟩ := List.exists_cons_of_length_eq_add_one sameWidth.symm
      have sameRest : first.length = second.length := Nat.succ_inj.mp sameWidth
      have restSmall := (List.forall_mem_cons.mp firstSmall).2
      rw [value_cons, value_cons, sameRest]
      rcases List.cons_lt_cons_iff.mp smaller with below | ⟨rfl, later⟩
      · have restBound := value_lt large restSmall
        rw [sameRest] at restBound
        calc digit * base ^ second.length + value base first
            < (digit + 1) * base ^ second.length := by rw [Nat.succ_mul]; omega
          _ ≤ other * base ^ second.length := Nat.mul_le_mul_right _ below
          _ ≤ other * base ^ second.length + value base second := Nat.le_add_right _ _
      · exact Nat.add_lt_add_left (ih sameRest restSmall later) _

/-- Dropping places divides. -/
theorem value_append_div {high low : List Nat} (large : 1 < base)
    (small : ∀ digit ∈ low, digit < base) :
    value base (high ++ low) / base ^ low.length = value base high := by
  have positive : 0 < base ^ low.length := Nat.pow_pos (by omega)
  rw [value_append, Nat.mul_comm, Nat.mul_add_div positive,
    Nat.div_eq_of_lt (value_lt large small), Nat.add_zero]

@[simp] theorem length_digits (width number : Nat) : (digits base width number).length = width := by
  induction width generalizing number with
  | zero => rfl
  | succ width ih => simp [digits, ih]

/-- Digits are below the base. -/
theorem lt_of_mem_digits {width number digit : Nat} (positive : 0 < base)
    (member : digit ∈ digits base width number) : digit < base := by
  induction width generalizing number with
  | zero => cases member
  | succ width ih =>
      rcases List.mem_append.mp member with inFront | isLast
      · exact ih inFront
      · rw [List.mem_singleton.mp isLast]
        exact Nat.mod_lt _ positive

/-- A numeral of a fixed width keeps the number up to its range. -/
theorem value_digits (width number : Nat) :
    value base (digits base width number) = number % base ^ width := by
  induction width generalizing number with
  | zero => simp [digits, Nat.mod_one]
  | succ width ih =>
      rw [digits, value_concat, ih, Nat.pow_succ, Nat.mul_comm _ base, Nat.mul_comm _ base,
        Nat.mod_mul, Nat.add_comm]

/-- The numeral of what a numeral spells. -/
theorem digits_value {numeral : List Nat} (large : 1 < base)
    (small : ∀ digit ∈ numeral, digit < base) :
    digits base numeral.length (value base numeral) = numeral := by
  apply value_injective large (length_digits _ _)
  · exact fun digit => lt_of_mem_digits (by omega)
  · exact small
  · rw [value_digits, Nat.mod_eq_of_lt (value_lt large small)]

/-- Spell every digit of a larger base with a fixed width. -/
abbrev spread (base width : Nat) (numeral : List Nat) : List Nat :=
  numeral.flatMap (digits base width)

@[simp] theorem length_spread (width : Nat) (numeral : List Nat) :
    (spread base width numeral).length = width * numeral.length := by
  simp [spread, List.length_flatMap, List.map_const', List.sum_replicate, Nat.mul_comm]

/-- So are those of digits that are spread. -/
theorem lt_of_mem_spread {width digit : Nat} {numeral : List Nat} (positive : 0 < base)
    (member : digit ∈ spread base width numeral) : digit < base := by
  obtain ⟨_, _, inDigits⟩ := List.mem_flatMap.mp member
  exact lt_of_mem_digits positive inDigits

/-- Spreading keeps the number. -/
theorem value_spread {width : Nat} {numeral : List Nat}
    (small : ∀ digit ∈ numeral, digit < base ^ width) :
    value base (spread base width numeral) = value (base ^ width) numeral := by
  induction numeral using List.reverseRecOn with
  | nil => rfl
  | append_singleton numeral digit ih =>
      have digitSmall : digit < base ^ width := small digit (by simp)
      have restSmall : ∀ other ∈ numeral, other < base ^ width := fun other member =>
        small other (by simp [member])
      rw [spread, List.flatMap_append, List.flatMap_singleton, value_append, value_concat,
        length_digits, value_digits, Nat.mod_eq_of_lt digitSmall, ← ih restSmall]

/-- Numerals of the larger base that spread to the same digits are the same. -/
theorem spread_injective {width : Nat} {first second : List Nat} (large : 1 < base)
    (wide : 0 < width) (firstSmall : ∀ digit ∈ first, digit < base ^ width)
    (secondSmall : ∀ digit ∈ second, digit < base ^ width)
    (same : spread base width first = spread base width second) : first = second := by
  have sameWidth : first.length = second.length := by
    have lengths := congrArg List.length same
    rw [length_spread, length_spread] at lengths
    exact Nat.eq_of_mul_eq_mul_left wide lengths
  apply value_injective (Nat.one_lt_pow wide.ne' large) sameWidth firstSmall secondSmall
  rw [← value_spread firstSmall, ← value_spread secondSmall, same]

/-- Gather so many digits of a larger base from the front of a numeral. -/
def gather (base width : Nat) : Nat → List Nat → List Nat
  | 0, _ => []
  | count + 1, numeral =>
      value base (numeral.take width) :: gather base width count (numeral.drop width)

/-- Gathered digits are below the power of the base. -/
theorem lt_of_mem_gather {width count digit : Nat} {numeral : List Nat} (large : 1 < base)
    (small : ∀ other ∈ numeral, other < base) (member : digit ∈ gather base width count numeral) :
    digit < base ^ width := by
  induction count generalizing numeral with
  | zero => cases member
  | succ count ih =>
      rcases List.mem_cons.mp member with rfl | later
      · have smallFront : ∀ other ∈ numeral.take width, other < base := fun other inFront =>
          small other (List.mem_of_mem_take inFront)
        apply (value_lt large smallFront).trans_le
        exact Nat.pow_le_pow_right (by omega) (List.length_take_le _ _)
      · exact ih (fun other inRest => small other (List.mem_of_mem_drop inRest)) later

/-- Spreading what was gathered gives the digits back. -/
theorem spread_gather {width count : Nat} {numeral : List Nat} (large : 1 < base)
    (small : ∀ digit ∈ numeral, digit < base) (enough : width * count ≤ numeral.length) :
    spread base width (gather base width count numeral) = numeral.take (width * count) := by
  induction count generalizing numeral with
  | zero => simp [gather]
  | succ count ih =>
      rw [Nat.mul_succ] at enough ⊢
      have frontSmall : ∀ digit ∈ numeral.take width, digit < base := fun digit member =>
        small digit (List.mem_of_mem_take member)
      have restSmall : ∀ digit ∈ numeral.drop width, digit < base := fun digit member =>
        small digit (List.mem_of_mem_drop member)
      have isWidth : (numeral.take width).length = width := by
        rw [List.length_take]
        omega
      have front := digits_value large frontSmall
      rw [isWidth] at front
      have rest := ih restSmall (by rw [List.length_drop]; omega)
      rw [gather, spread, List.flatMap_cons, front, ← spread, rest, Nat.add_comm, List.take_add]

end Positional
