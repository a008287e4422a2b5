import Mathlib.Algebra.Order.BigOperators.Group.List
import Mathlib.Algebra.Order.Ring.Nat
import AltairRs.Compress.TarDisk

/-!
# Counting the bytes of an extraction

`byteCount` is the world of an extraction in which only the bytes written count:
any call may fail, and a failed one may have written a part. Every disk is seen
as it, so a program that keeps the cap in it keeps the cap on every disk.
-/

namespace AltairRs.Compress

open Effect Unix

/-- The bytes `Entry::unpack` writes for an entry. -/
def TarEntry.payload (entry : TarEntry) : Nat :=
  if entry.entryType.hasPayload then entry.data.length else 0

/-- How many bytes a call may write, given its response. -/
def TarOp.Bytes : (op : TarOp) → tarSignature.Response op → Nat → Prop
  | .openArchive, _, count | .createDirAll _, _, count | .createFile _, _, count => count = 0
  | .copy _ bytes, .ok copied, count => copied = bytes.length ∧ count = bytes.length
  | .copy _ bytes, .error _, count => count ≤ bytes.length
  | .unpack entry _, .ok _, count => count = entry.payload
  | .unpack entry _, .error _, count => count ≤ entry.payload

/-- The world that counts the file bytes written. -/
def byteCount : World tarSignature Nat where
  Answers written op response next := ∃ count, op.Bytes response count ∧ next = written + count

/-- What the changes of `Entry::unpack` write. -/
theorem unpackChanges_bytes {entry : TarEntry} {dst : Path} {actions : List Action}
    (changes : UnpackChanges entry dst actions) :
    (actions.map Action.bytes).sum ≤ entry.payload := by
  have bounded : ∀ {all}, actions.Sublist all →
      (actions.map Action.bytes).sum ≤ (all.map Action.bytes).sum := fun sub =>
    (sub.map Action.bytes).sum_le_sum fun _ _ => Nat.zero_le _
  unfold UnpackChanges at changes
  unfold TarEntry.payload
  cases isType : entry.entryType with
  | directory =>
      rw [isType] at changes
      exact bounded changes
  | symlink =>
      rw [isType] at changes
      rcases changes with rfl | ⟨target, _, sub⟩
      · exact Nat.le_refl _
      · exact bounded sub
  | hardLink =>
      rw [isType] at changes
      rcases changes with rfl | ⟨source, _, rfl⟩
      · exact Nat.le_refl _
      · exact Nat.le_refl _
  | character | block | fifo =>
      rw [isType] at changes
      rw [show actions = [] from changes]
      exact Nat.le_refl _
  | regular | continuous | gnuSparse | unknown =>
      rw [isType] at changes
      obtain ⟨count, sub⟩ := changes
      have partly := bounded sub
      simp only [List.map_cons, List.map_nil, List.sum_cons, List.sum_nil, Action.bytes,
        List.length_take] at partly
      simp only [EntryType.hasPayload, if_true]
      omega

/-- On success it has written the whole payload. -/
theorem unpackDone_bytes {entry : TarEntry} {dst : Path} {current : Location}
    {actions : List Action} {next : Disk} (done : UnpackDone entry dst current actions next) :
    entry.payload ≤ (actions.map Action.bytes).sum := by
  unfold UnpackDone at done
  unfold TarEntry.payload
  cases isType : entry.entryType with
  | hardLink | symlink | character | block | directory | fifo => exact Nat.zero_le _
  | regular | continuous | gnuSparse | unknown =>
      rw [isType] at done
      exact List.le_sum_of_mem (List.mem_map_of_mem (f := Action.bytes) done)

/-- A disk counts the bytes: its calls answer as in `byteCount`. -/
theorem tarDisk_counts (current : Location) (here : Disk) (op : TarOp)
    (response : tarSignature.Response op) (next : Disk)
    (answer : (tarDisk current).Answers here op response next) :
    byteCount.Answers here.written op response next.written := by
  obtain ⟨actions, changes, performs, done⟩ := answer
  refine ⟨_, ?_, performs.written_eq⟩
  cases op with
  | openArchive =>
      rw [show actions = [] from changes]
      exact rfl
  | createDirAll path =>
      have nothing : ∀ bytes ∈ actions.map Action.bytes, bytes = 0 := by
        intro bytes member
        obtain ⟨action, isAction, rfl⟩ := List.mem_map.mp member
        obtain ⟨above, _, rfl⟩ := changes action isAction
        rfl
      exact List.sum_eq_zero nothing
  | createFile path =>
      rcases changes with rfl | ⟨file, rfl | rfl⟩
      · exact rfl
      · exact rfl
      · exact rfl
  | copy file bytes =>
      cases response with
      | ok copied =>
          obtain ⟨rfl, isCopied⟩ := done
          exact ⟨isCopied, rfl⟩
      | error e =>
          rcases changes with rfl | ⟨count, rfl⟩
          · exact Nat.zero_le _
          · exact List.length_take_le' count bytes
  | unpack entry dst =>
      cases response with
      | ok _ => exact Nat.le_antisymm (unpackChanges_bytes changes) (unpackDone_bytes done)
      | error e => exact unpackChanges_bytes changes

/-- A program keeps the cap: at most one byte over it is written, at any cut, and
none over it when `Ok` is returned. -/
structure KeepsLimit (limit : UInt64) (program : TarProgram (Result Unit)) : Prop where
  written : ∀ events remainder bytes, Reaches byteCount program 0 events remainder bytes →
    bytes ≤ saturatingAdd limit.toNat 1
  returned : ∀ events bytes, Returns byteCount program 0 events (.ok ()) bytes →
    bytes ≤ limit.toNat

/-- A program that keeps the cap keeps it on every disk. -/
theorem KeepsLimit.on_disk {limit : UInt64} {program remainder : TarProgram (Result Unit)}
    {before : FileSystem} {current : Location} {events : List (Event tarSignature)}
    {here : Disk} (keeps : KeepsLimit limit program)
    (run : Reaches (tarDisk current) program { fs := before } events remainder here) :
    here.written ≤ saturatingAdd limit.toNat 1 :=
  keeps.written _ _ _ (run.simulates Disk.written (tarDisk_counts current))

end AltairRs.Compress
