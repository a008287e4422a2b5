import AltairRs.Compress.Tar

/-!
# Extraction on a disk

The world of an extraction: what each call changes on a Unix disk. A call that
fails may have made a part of its changes. `Entry::unpack` follows the `tar`
crate: it links with the effective link name, a hard link's relative to the
working directory, and replaces an entry that is in the way.
-/

namespace AltairRs.Compress

open Effect Unix

/-- Whether `Entry::unpack` writes a payload: it does for every type it does not
treat specially. -/
def EntryType.hasPayload : EntryType → Bool
  | .hardLink | .symlink | .character | .block | .directory | .fifo => false
  | .regular | .continuous | .gnuSparse | .unknown _ => true

/-- The changes `Entry::unpack` may make. -/
def UnpackChanges (entry : TarEntry) (dst : Path) (actions : List Action) : Prop :=
  match entry.entryType with
  | .directory => actions.Sublist [.mkdir dst]
  | .symlink => actions = [] ∨ ∃ target, entry.effectiveLink = some target ∧
      actions.Sublist [.unlink dst, .symlink target dst]
  | .hardLink => actions = [] ∨ ∃ source, entry.effectiveLink = some source ∧
      actions = [.link source dst]
  | .character | .block | .fifo => actions = []
  | .regular | .continuous | .gnuSparse | .unknown _ => ∃ count,
      actions.Sublist [.unlink dst, .createNew dst (entry.data.take count)]

/-- Every single change `Entry::unpack` may make. -/
theorem UnpackChanges.mem {entry : TarEntry} {dst : Path} {actions : List Action} {action : Action}
    (changes : UnpackChanges entry dst actions) (member : action ∈ actions) :
    entry.entryType = .directory ∧ action = .mkdir dst ∨
      entry.entryType = .symlink ∧ (action = .unlink dst ∨
        ∃ target, entry.effectiveLink = some target ∧ action = .symlink target dst) ∨
      entry.entryType = .hardLink ∧
        (∃ source, entry.effectiveLink = some source ∧ action = .link source dst) ∨
      entry.entryType.hasPayload ∧ (action = .unlink dst ∨
        ∃ count, action = .createNew dst (entry.data.take count)) := by
  unfold UnpackChanges at changes
  cases isType : entry.entryType with
  | directory =>
      rw [isType] at changes
      exact .inl ⟨rfl, List.mem_singleton.mp (changes.subset member)⟩
  | symlink =>
      rw [isType] at changes
      rcases changes with rfl | ⟨target, isTarget, sub⟩
      · cases member
      · have isAction : action = .unlink dst ∨ action = .symlink target dst := by
          simpa using sub.subset member
        exact .inr (.inl ⟨rfl, isAction.imp_right fun isLink => ⟨target, isTarget, isLink⟩⟩)
  | hardLink =>
      rw [isType] at changes
      rcases changes with rfl | ⟨source, isSource, rfl⟩
      · cases member
      · exact .inr (.inr (.inl ⟨rfl, source, isSource, List.mem_singleton.mp member⟩))
  | character | block | fifo =>
      rw [isType] at changes
      rw [show actions = [] from changes] at member
      cases member
  | regular | continuous | gnuSparse | unknown =>
      rw [isType] at changes
      obtain ⟨count, sub⟩ := changes
      have isAction : action = .unlink dst ∨ action = .createNew dst (entry.data.take count) := by
        simpa using sub.subset member
      exact .inr (.inr (.inr ⟨rfl, isAction.imp_right fun isNew => ⟨count, isNew⟩⟩))

/-- The changes a call may make. -/
def TarOp.Changes : TarOp → List Action → Prop
  | .openArchive, actions => actions = []
  | .createDirAll path, actions =>
      ∀ action ∈ actions, ∃ above, above <+: path ∧ action = .mkdir above
  | .createFile path, actions =>
      actions = [] ∨ ∃ file, actions = [.create path file] ∨ actions = [.truncate path file]
  | .copy file bytes, actions =>
      actions = [] ∨ ∃ count, actions = [.append file (bytes.take count)]
  | .unpack entry dst, actions => UnpackChanges entry dst actions

/-- What has happened when `Entry::unpack` succeeds. -/
def UnpackDone (entry : TarEntry) (dst : Path) (current : Location) (actions : List Action)
    (next : Disk) : Prop :=
  match entry.entryType with
  | .directory => ∃ location, Follows next.fs current dst location ∧ next.fs.IsDirectory location
  | .symlink => ∃ target, .symlink target dst ∈ actions
  | .hardLink => ∃ source, .link source dst ∈ actions
  | .character | .block | .fifo => True
  | .regular | .continuous | .gnuSparse | .unknown _ => .createNew dst entry.data ∈ actions

/-- What has happened when a call succeeds. -/
def TarOp.Done (current : Location) (actions : List Action) (next : Disk) :
    (op : TarOp) → tarSignature.Response op → Prop
  | .createDirAll path, .ok _ =>
      ∃ location, Follows next.fs current path location ∧ next.fs.IsDirectory location
  | .createFile path, .ok file => actions = [.create path file] ∨ actions = [.truncate path file]
  | .copy file bytes, .ok written => actions = [.append file bytes] ∧ written = bytes.length
  | .unpack entry dst, .ok _ => UnpackDone entry dst current actions next
  | _, _ => True

/-- The disk, seen from a working directory. -/
def tarDisk (current : Location) : World tarSignature Disk where
  Answers here op response next :=
    ∃ actions, op.Changes actions ∧ PerformsAll current here actions next ∧
      op.Done current actions next response

end AltairRs.Compress
