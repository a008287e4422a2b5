/-!
# Values as bytes

A codec writes a value as bytes, from the front of which the value can be read whatever
follows. Codecs of parts make codecs of pairs, options and lists.
-/

namespace Data

universe u v

/-- A reader that finds a written value in front of any bytes. -/
structure Codec (α : Type u) where
  write : α → List UInt8
  read : List UInt8 → Option (α × List UInt8)
  read_write : ∀ value rest, read (write value ++ rest) = some (value, rest)

namespace Codec

variable {α : Type u} {β : Type v}

/-- A byte as it is. -/
def byte : Codec UInt8 where
  write value := [value]
  read
    | [] => none
    | value :: rest => some (value, rest)
  read_write _ _ := rfl

/-- A value as one of another type. -/
def via (codec : Codec α) (forth : β → α) (back : α → β)
    (back_forth : ∀ value, back (forth value) = value) : Codec β where
  write value := codec.write (forth value)
  read bytes := (codec.read bytes).map fun (value, rest) => (back value, rest)
  read_write value rest := by
    rw [codec.read_write, Option.map_some]
    simp only [back_forth]

/-- One value after the other. -/
def pair (first : Codec α) (second : Codec β) : Codec (α × β) where
  write value := first.write value.1 ++ second.write value.2
  read bytes :=
    match first.read bytes with
    | none => none
    | some (value, rest) => (second.read rest).map fun (other, rest) => ((value, other), rest)
  read_write value rest := by
    rw [List.append_assoc, first.read_write]
    simp only [second.read_write, Option.map_some]

/-- A mark, and the value if there is one. -/
def option (codec : Codec α) : Codec (Option α) where
  write
    | none => [0]
    | some value => 1 :: codec.write value
  read
    | [] => none
    | mark :: rest =>
        if mark = 0 then some (none, rest)
        else (codec.read rest).map fun (value, rest) => (some value, rest)
  read_write value rest := by
    cases value with
    | none => rfl
    | some value =>
        have notNone : (1 : UInt8) ≠ 0 := by decide
        simp only [List.cons_append, notNone, if_false, codec.read_write, Option.map_some]

/-- So many marks, and one that ends them. -/
def readNat : List UInt8 → Option (Nat × List UInt8)
  | [] => none
  | mark :: rest =>
      if mark = 0 then some (0, rest) else (readNat rest).map fun (count, rest) => (count + 1, rest)

/-- A number in unary. -/
def nat : Codec Nat where
  write count := List.replicate count 1 ++ [0]
  read := readNat
  read_write count rest := by
    induction count with
    | zero => rfl
    | succ count ih =>
        rw [List.replicate_succ, List.cons_append, List.cons_append, readNat,
          if_neg (by decide), ih]
        rfl

/-- So many values. -/
def readMany (codec : Codec α) : Nat → List UInt8 → Option (List α × List UInt8)
  | 0, bytes => some ([], bytes)
  | count + 1, bytes =>
      match codec.read bytes with
      | none => none
      | some (value, rest) =>
          (codec.readMany count rest).map fun (values, rest) => (value :: values, rest)

/-- Values one after another are read again. -/
theorem readMany_write (codec : Codec α) (values : List α) (rest : List UInt8) :
    codec.readMany values.length (values.flatMap codec.write ++ rest) = some (values, rest) := by
  induction values with
  | nil => rfl
  | cons value values ih =>
      rw [List.flatMap_cons, List.append_assoc, List.length_cons, readMany, codec.read_write]
      simp only [ih, Option.map_some]

/-- The number of the values, and the values. -/
def list (codec : Codec α) : Codec (List α) where
  write values := nat.write values.length ++ values.flatMap codec.write
  read bytes :=
    match nat.read bytes with
    | none => none
    | some (count, rest) => codec.readMany count rest
  read_write values rest := by
    rw [List.append_assoc, nat.read_write]
    exact codec.readMany_write values rest

/-- A text, by the numbers of its characters. -/
def string : Codec String :=
  ((nat.via Char.toNat Char.ofNat Char.ofNat_toNat).list).via String.toList String.ofList
    fun _ => String.ofList_toList

end Codec

end Data
