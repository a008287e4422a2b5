import AltairRs.Compress.SymlinkConfinement
import AltairRs.Compress.Zip

/-!
# Zip extraction stays in its destination

The `zip` crate already answers with an enclosed name; the recipe resolves it once
more. So nothing is assumed of the crate here: an entry may claim any enclosed name,
and every call may fail or stop in the middle.
-/

namespace AltairRs.Compress

open Effect Unix

/-- The calls of a zip extraction; it never calls `Entry::unpack`. -/
theorem unzipEntry_extracts (dest : Path) (limit : UInt64) (total : Nat) (entry : ZipEntry) :
    Requests (Extracts dest []) (unzipEntry dest limit total entry) := by
  unfold unzipEntry
  cases entry.enclosedName with
  | none => exact trivial
  | some entryPath =>
      dsimp only
      cases resolved : resolve dest entryPath with
      | error e => exact trivial
      | ok safeDest =>
          obtain ⟨descends, rfl⟩ := (resolve_eq_ok_iff dest entryPath safeDest).mp resolved
          have below := join_below dest descends
          cases entry.isDir with
          | false =>
              exact copyBounded_requests "zip-entry" limit total entry.data
                (createParents_extracts below) below fun _ _ => trivial
          | true =>
              obtain ⟨rest, _, restDescends, isBelow⟩ := below
              refine Requests.bind
                (.perform ⟨rest, restDescends, isBelow ▸ List.prefix_refl _⟩) fun made => ?_
              cases made <;> exact trivial

/-- Every item is unzipped below the destination. -/
theorem unzipLoop_extracts (dest : Path) (limit : UInt64) (total : Nat)
    (items : List (Except String ZipEntry)) :
    Requests (Extracts dest []) (unzipLoop dest limit total items) := by
  induction items generalizing total with
  | nil => exact trivial
  | cons item rest ih =>
      cases item with
      | error e => exact trivial
      | ok entry =>
          refine Requests.bind (unzipEntry_extracts dest limit total entry) fun returned => ?_
          cases returned with
          | error e => exact trivial
          | ok total => exact ih total

/-- So is every archive. -/
theorem unzipWithLimit_extracts (archive : ZipContents) (dest : Path) (limit : UInt64) :
    Requests (Extracts dest []) (unzipWithLimit archive dest limit) := by
  refine Requests.bind (.perform ⟨[], nofun, List.prefix_append _ _⟩) fun made => ?_
  cases made with
  | error e => exact trivial
  | ok _ =>
      refine Requests.bind (.perform trivial) fun isOpened => ?_
      cases isOpened with
      | error e => exact trivial
      | ok _ =>
          cases archive with
          | error e => exact trivial
          | ok entries => exact unzipLoop_extracts dest limit 0 entries

/-- Without entries to unpack, an extraction makes no links. -/
theorem changes_noLinks {dest : Path} {op : TarOp} {actions : List Action}
    (extracts : Extracts dest [] op) (changes : op.Changes actions) :
    ∀ action ∈ actions, ∀ target path, action ≠ .symlink target path := by
  cases op with
  | openArchive =>
      rw [show actions = [] from changes]
      exact nofun
  | createDirAll path =>
      intro action member
      obtain ⟨above, -, rfl⟩ := changes action member
      exact nofun
  | createFile path =>
      rcases changes with rfl | ⟨file, rfl | rfl⟩
      · exact nofun
      · exact List.forall_mem_singleton.mpr nofun
      · exact List.forall_mem_singleton.mpr nofun
  | copy file bytes =>
      rcases changes with rfl | ⟨count, rfl⟩
      · exact nofun
      · exact List.forall_mem_singleton.mpr nofun
  | unpack entry dst => exact absurd extracts.1 List.not_mem_nil

/-- Everything done so far was done in the region, and no link was made. -/
structure WithoutLinks (before : FileSystem) (region : Location) (disk : Disk) : Prop
    extends Confined before region disk where
  old : ∀ location target, disk.fs.SymlinkAt location target → before.SymlinkAt location target

/-- A call of a zip extraction keeps to the region and makes no link. -/
theorem WithoutLinks.answered {before : FileSystem} {current region : Location} {dest : Path}
    {disk next : Disk} {op : TarOp} {response : tarSignature.Response op}
    (withoutLinks : WithoutLinks before region disk)
    (isRegion : Region before current dest region) (extracts : Extracts dest [] op)
    (answer : (tarDisk current).Answers disk op response next) :
    WithoutLinks before region next := by
  obtain ⟨actions, changes, performs, _⟩ := answer
  have accepted : ExtensionAccepted disk op := by
    cases op with
    | unpack entry dst => exact absurd extracts.1 List.not_mem_nil
    | openArchive | createDirAll | createFile | copy => trivial
  have noEntries : FilesDirectoriesSymlinks [] := fun _ member => absurd member List.not_mem_nil
  have permitted := changes_permitted noEntries extracts accepted changes
  have noLinks := changes_noLinks extracts changes
  refine performs.preserves (fun disk action location next allowed withoutLinks step => ?_)
    (fun action member => And.intro (permitted action member) (noLinks action member)) withoutLinks
  refine ⟨withoutLinks.performs isRegion allowed.1 step, fun other target link => ?_⟩
  refine withoutLinks.old other target
    (step.symlinkAt_old (fun path target => allowed.2 target path) ?_ link)
  rintro source path rfl
  exact allowed.1

/-- Every cut of every zip extraction stays inside the destination and leaves no link
there, whatever the archive holds and whatever fails. -/
theorem unzipWithLimit_confined {before : FileSystem} {current region : Location} {dest : Path}
    (isRegion : Region before current dest region) (archive : ZipContents) (limit : UInt64)
    {events : List (Event tarSignature)} {remainder : TarProgram (Result Unit)} {here : Disk}
    (run : Reaches (tarDisk current) (unzipWithLimit archive dest limit) { fs := before } events
      remainder here) :
    (∀ change ∈ here.performed, region <+: change.2) ∧
      ∀ location target, region <+: location → ¬ here.fs.SymlinkAt location target := by
  have start : WithoutLinks before region { fs := before } :=
    ⟨Confined.initial isRegion, fun _ _ link => link⟩
  have withoutLinks := (unzipWithLimit_extracts archive dest limit).preserves
    (fun _ _ _ _ extracts withoutLinks answer =>
      WithoutLinks.answered withoutLinks isRegion extracts answer) run start
  exact ⟨withoutLinks.performed, fun location target inside link =>
    isRegion.noLinks location target inside (withoutLinks.old location target link)⟩

/-- An archive with one file. -/
def oneFile : ZipContents :=
  .ok [.ok { name := "x", enclosedName := some [.normal "x"], isDir := false, data := [42] }]

/-- The disk when the file has been made, and when it has been written. -/
def madeDisk : Disk where
  fs := (freshDisk.put ["out", "x"] (.entry 0)).store 0 (.file [])
  opened := [(0, ["out", "x"])]
  performed := [(.create [.normal "out", .normal "x"] 0, ["out", "x"])]

def writtenDisk : Disk where
  fs := madeDisk.fs.store 0 (.file ([] ++ [42]))
  opened := madeDisk.opened
  performed := madeDisk.performed ++ [(.append 0 [42], ["out", "x"])]

/-- The run that writes one file. -/
theorem oneFile_run : ∃ events, Reaches (tarDisk []) (unzipWithLimit oneFile [.normal "out"] 10)
    { fs := freshDisk } events (.done (.ok ())) writtenDisk := by
  let fresh : Disk := { fs := freshDisk }
  have makes : (tarDisk []).Answers fresh (.createDirAll [.normal "out"]) (.ok ()) fresh :=
    ⟨[], List.forall_mem_nil _, .nil, ["out"], freshDisk_out⟩
  have opens : (tarDisk []).Answers fresh .openArchive (.ok ()) fresh := ⟨[], rfl, .nil, trivial⟩
  have creates : (tarDisk []).Answers fresh (.createFile [.normal "out", .normal "x"]) (.ok 0)
      madeDisk := by
    refine ⟨[.create _ 0], .inr ⟨0, .inl rfl⟩, .cons (.create ?_ (by decide) ?_) .nil, .inl rfl⟩
    · refine .directory freshDisk_out.2 (.last (by decide) ?_)
      rintro _ ⟨_, isEntry, _⟩
      cases isEntry
    · exact ⟨freshDisk_unnamed 0, List.forall_mem_nil _⟩
  have copies : (tarDisk []).Answers madeDisk (.copy 0 [42]) (.ok 1) writtenDisk := by
    refine ⟨[.append 0 [42]], .inr ⟨1, rfl⟩, .cons (.append List.mem_cons_self ?_) .nil, rfl, rfl⟩
    exact FileSystem.store_inode_self _ _ _
  exact ⟨_, .step makes (.step opens (.step makes (.step creates (.step copies .refl))))⟩

/-- It stays in its destination. -/
theorem unzipWithLimit_confined_oneFile :
    ∃ events, Reaches (tarDisk []) (unzipWithLimit oneFile [.normal "out"] 10)
        { fs := freshDisk } events (.done (.ok ())) writtenDisk ∧
      ∀ change ∈ writtenDisk.performed, ["out"] <+: change.2 := by
  obtain ⟨events, run⟩ := oneFile_run
  exact ⟨events, run, (unzipWithLimit_confined freshDisk_region oneFile 10 run).1⟩

end AltairRs.Compress
