import Mathlib.Algebra.BigOperators.Group.List.Basic
import Mathlib.Data.List.Forall2

/-!
# Mixed-radix counting

Tuples with one member from each of several columns, listed so that the last
column varies fastest. The position of a tuple in the list and the rows it takes
from the columns are a number and its mixed-radix digits.
-/

namespace MixedRadix

universe u

variable {α : Type u}

/-- The digits of a number, the most significant first; a digit weighs the product of the
radices after its own. -/
def digits : List Nat → Nat → List Nat
  | [], _ => []
  | _ :: radices, number => number / radices.prod :: digits radices (number % radices.prod)

/-- The number some digits spell. -/
def value : List Nat → List Nat → Nat
  | _ :: radices, digit :: rest => digit * radices.prod + value radices rest
  | _, _ => 0

/-- One digit for each radix, and below it. -/
abbrev Numeral (radices numeral : List Nat) : Prop := List.Forall₂ (· < ·) numeral radices

/-- The digits of a small number fit their radices. -/
theorem digits_numeral {radices : List Nat} {number : Nat} (small : number < radices.prod) :
    Numeral radices (digits radices number) := by
  induction radices generalizing number with
  | nil => exact .nil
  | cons radix radices ih =>
      rw [List.prod_cons] at small
      have positive := Nat.pos_of_mul_pos_left (Nat.zero_lt_of_lt small)
      exact .cons ((Nat.div_lt_iff_lt_mul positive).mpr small) (ih (Nat.mod_lt _ positive))

/-- A numeral that fits is below the product of the radices. -/
theorem value_lt {radices numeral : List Nat} (fits : Numeral radices numeral) :
    value radices numeral < radices.prod := by
  induction fits with
  | nil => exact Nat.one_pos
  | @cons digit radix rest radices digitSmall restFits ih =>
      rw [value, List.prod_cons]
      calc digit * radices.prod + value radices rest
          < digit * radices.prod + radices.prod := Nat.add_lt_add_left ih _
        _ = (digit + 1) * radices.prod := (Nat.succ_mul _ _).symm
        _ ≤ radix * radices.prod := Nat.mul_le_mul_right _ digitSmall

/-- The digits of a number have its value. -/
theorem value_digits {radices : List Nat} {number : Nat} (small : number < radices.prod) :
    value radices (digits radices number) = number := by
  induction radices generalizing number with
  | nil => exact (Nat.lt_one_iff.mp small).symm
  | cons radix radices ih =>
      rw [List.prod_cons] at small
      have positive := Nat.pos_of_mul_pos_left (Nat.zero_lt_of_lt small)
      rw [digits, value, ih (Nat.mod_lt _ positive), Nat.mul_comm]
      exact Nat.div_add_mod _ _

/-- A numeral that fits is the digits of its value. -/
theorem digits_value {radices numeral : List Nat} (fits : Numeral radices numeral) :
    digits radices (value radices numeral) = numeral := by
  induction fits with
  | nil => rfl
  | @cons digit radix rest radices digitSmall restFits ih =>
      have restSmall := value_lt restFits
      have positive : 0 < radices.prod := Nat.zero_lt_of_lt restSmall
      rw [value, digits, Nat.mul_comm, Nat.mul_add_div positive, Nat.mul_add_mod,
        Nat.div_eq_of_lt restSmall, Nat.mod_eq_of_lt restSmall, ih, Nat.add_zero]

/-- Every numeral is the digits of exactly one number below the product. -/
theorem existsUnique_digits {radices numeral : List Nat} (fits : Numeral radices numeral) :
    ∃! number, number < radices.prod ∧ digits radices number = numeral := by
  refine ⟨value radices numeral, ⟨value_lt fits, digits_value fits⟩, ?_⟩
  rintro number ⟨small, rfl⟩
  exact (value_digits small).symm

/-- One member from each column, the last column varying fastest. -/
def tuples : List (List α) → List (List α)
  | [] => [[]]
  | column :: columns => column.flatMap fun member => (tuples columns).map (member :: ·)

@[simp] theorem length_tuples (columns : List (List α)) :
    (tuples columns).length = (columns.map List.length).prod := by
  induction columns with
  | nil => rfl
  | cons column columns ih =>
      rw [tuples, List.length_flatMap, List.map_cons, List.prod_cons]
      simp only [List.length_map, ih, List.map_const', List.sum_replicate_nat]

/-- A tuple has one value for each column. -/
theorem length_of_mem_tuples {columns : List (List α)} {tuple : List α}
    (member : tuple ∈ tuples columns) : tuple.length = columns.length := by
  induction columns generalizing tuple with
  | nil =>
      rw [List.mem_singleton.mp member]
      rfl
  | cons column columns ih =>
      obtain ⟨first, _, member⟩ := List.mem_flatMap.mp member
      obtain ⟨rest, inRest, rfl⟩ := List.mem_map.mp member
      rw [List.length_cons, List.length_cons, ih inRest]

/-- Blocks of one length, one after another: a position is a block and a position in it. -/
theorem getElem?_flatMap {β : Type u} {block : α → List β} {length : Nat}
    (even : ∀ member, (block member).length = length) (positive : 0 < length) (column : List α)
    (i : Nat) : (column.flatMap block)[i]? =
      column[i / length]?.bind fun member => (block member)[i % length]? := by
  induction column generalizing i with
  | nil => rfl
  | cons member column ih =>
      rw [List.flatMap_cons]
      by_cases inFirst : i < length
      · rw [List.getElem?_append_left ((even member).symm ▸ inFirst), Nat.div_eq_of_lt inFirst,
          Nat.mod_eq_of_lt inFirst]
        rfl
      · have later : length ≤ i := Nat.le_of_not_lt inFirst
        rw [List.getElem?_append_right ((even member).symm ▸ later), even, ih,
          Nat.div_eq_sub_div positive later, Nat.mod_eq_sub_mod later]
        rfl

/-- The rows the tuple at a position takes are the digits of the position. -/
theorem getElem?_tuples {columns : List (List α)} {i : Nat}
    (small : i < (columns.map List.length).prod) :
    ∃ tuple, (tuples columns)[i]? = some tuple ∧
      List.Forall₂ (fun member (row : List α × Nat) => row.1[row.2]? = some member) tuple
        (columns.zip (digits (columns.map List.length) i)) := by
  induction columns generalizing i with
  | nil =>
      refine ⟨[], ?_, .nil⟩
      rw [Nat.lt_one_iff.mp small]
      rfl
  | cons column columns ih =>
      have first := (List.forall₂_cons.mp (digits_numeral small)).1
      rw [List.map_cons, List.prod_cons] at small
      have positive := Nat.pos_of_mul_pos_left (Nat.zero_lt_of_lt small)
      obtain ⟨rest, restThere, restRows⟩ := ih (Nat.mod_lt i positive)
      refine ⟨column[i / (columns.map List.length).prod] :: rest, ?_, ?_⟩
      · have even : ∀ member : α, ((tuples columns).map (member :: ·)).length =
            (columns.map List.length).prod := fun member => by
          rw [List.length_map, length_tuples]
        rw [tuples, getElem?_flatMap even positive, List.getElem?_eq_getElem first,
          Option.bind_some, List.getElem?_map, restThere]
        rfl
      · exact .cons (List.getElem?_eq_getElem first) restRows

end MixedRadix
