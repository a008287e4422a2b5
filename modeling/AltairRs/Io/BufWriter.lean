import Mathlib.Data.List.Basic

/-!
# Buffered writing

A buffered writer holds back up to its capacity of what is written to it. When it
writes out is up to it, and any write to the file may fail, after a part of its
bytes. A failure while bytes are written is reported; dropping the writer writes
out what it still holds, and tells nobody whether that failed.
-/

namespace Io

universe u

variable {α : Type u} {capacity : Nat}

/-- A file, and what is held back from it. -/
structure BufWriter (α : Type u) where
  file : List α
  buffer : List α := []

/-- Everything written to it so far. -/
def BufWriter.accepted (writer : BufWriter α) : List α := writer.file ++ writer.buffer

/-- Bytes are written to the writer: whether every write to the file succeeded, and
where it stands. A failed write ends it, with the part that was not written held
back again or, if it never was in the buffer, lost. -/
inductive Writes (capacity : Nat) : BufWriter α → List α → Bool → BufWriter α → Prop where
  | done {writer} : Writes capacity writer [] true writer
  | hold {writer chunk rest isOk final} (fits : writer.buffer.length + chunk.length ≤ capacity)
      (next : Writes capacity { writer with buffer := writer.buffer ++ chunk } rest isOk final) :
      Writes capacity writer (chunk ++ rest) isOk final
  | flush {writer bytes isOk final}
      (next : Writes capacity ⟨writer.file ++ writer.buffer, []⟩ bytes isOk final) :
      Writes capacity writer bytes isOk final
  | flushFails {file front back bytes} (isSome : back ≠ []) :
      Writes capacity ⟨file, front ++ back⟩ bytes false ⟨file ++ front, back⟩
  | direct {file chunk rest isOk final}
      (next : Writes capacity ⟨file ++ chunk, []⟩ rest isOk final) :
      Writes capacity ⟨file, []⟩ (chunk ++ rest) isOk final
  | directFails {file front back rest} (isSome : back ≠ []) :
      Writes capacity ⟨file, []⟩ (front ++ back ++ rest) false ⟨file ++ front, []⟩

/-- The writer is dropped: whether it lost bytes, and the file it leaves. -/
inductive Drops : BufWriter α → Bool → List α → Prop where
  | written {writer} : Drops writer false (writer.file ++ writer.buffer)
  | lost {file front back} (isSome : back ≠ []) :
      Drops ⟨file, front ++ back⟩ true (file ++ front)

/-- If no write failed, everything is accepted. -/
theorem Writes.accepted {writer final : BufWriter α} {bytes : List α} {isOk : Bool}
    (writes : Writes capacity writer bytes isOk final) (succeeded : isOk = true) :
    final.accepted = writer.accepted ++ bytes := by
  induction writes with
  | done => exact (List.append_nil _).symm
  | hold _ _ ih => simpa [BufWriter.accepted] using ih succeeded
  | flush _ ih => simpa [BufWriter.accepted] using ih succeeded
  | flushFails => cases succeeded
  | direct _ ih => simpa [BufWriter.accepted] using ih succeeded
  | directFails => cases succeeded

/-- A drop that loses nothing leaves everything accepted in the file. -/
theorem Drops.kept {writer : BufWriter α} {file : List α} (drops : Drops writer false file) :
    file = writer.accepted := by
  cases drops
  rfl

/-- A drop that loses bytes leaves less. -/
theorem Drops.cut {writer : BufWriter α} {file : List α} (drops : Drops writer true file) :
    file <+: writer.accepted ∧ file ≠ writer.accepted := by
  cases drops with
  | @lost file front back isSome =>
      unfold BufWriter.accepted
      rw [← List.append_assoc]
      refine ⟨List.prefix_append _ _, fun same => isSome ?_⟩
      exact List.append_right_eq_self.mp same.symm

end Io
