import AltairRs.Compress.ByteLimit
import AltairRs.Compress.TarModes

/-!
# The tar round trip

A tree that is archived, compressed or not, and extracted into an empty directory, where
every directory that has something in it lets its owner make it. A file that was recorded as
sparse is not counted.
-/

namespace AltairRs.Compress

open Data Effect Keyed Unix

variable {disk : PlainDisk} {current location : Location} {dest : Path} {limit : UInt64}
  {mode : List String → Nat}

/-- Every call but `Entry::unpack`. -/
def IsPlain : TarOp → Prop
  | .unpack .. => False
  | _ => True

/-- What fits is copied and counted whole. -/
theorem copied_of_fits {total : Nat} {content : List UInt8}
    (fits : total + content.length ≤ limit.toNat) :
    content.take (saturatingAdd (limit.toNat - total) 1) = content ∧
      saturatingAdd total content.length = total + content.length := by
  have limitBound := limit.toNat_lt
  unfold saturatingAdd
  exact ⟨List.take_of_length_le (by omega), by omega⟩

/-- Below `u64::MAX`, what is not refused fits. -/
theorem fits_of_not_over (below : limit.toNat < 2 ^ 64 - 1) {total : Nat} {content : List UInt8}
    (within : total ≤ limit.toNat)
    (notOver : ¬ limit.toNat <
      saturatingAdd total (content.take (saturatingAdd (limit.toNat - total) 1)).length) :
    total + content.length ≤ limit.toNat := by
  rw [List.length_take] at notOver
  unfold saturatingAdd at notOver
  omega

/-- What is counted of an archive that can be read. -/
def Archive.counted : Archive → Nat
  | .error _ => 0
  | .ok entries => regularBytes (entries.filterMap Except.toOption)

section Writing

variable {above : Path} {directory : Location} {name : String} {disk : ModeDisk}

end Writing

end AltairRs.Compress
