import AltairRs.Compress.TarDisk
import AltairRs.Unix.Confinement
import AltairRs.Unix.Sharing

/-!
# Hard links in archives

The link check reads a hard link's name as if it were below the destination, but
`Entry::unpack` takes it from the working directory. Where the file it names is
on the other side of the destination's boundary, a later entry of the same path
writes the inode of a file outside; in every other run nothing outside is
shared or written.
-/

namespace AltairRs.Compress

open Effect Unix

/-- The destination stands for a directory that shares no inode with the outside. -/
structure DestApart (before : FileSystem) (current : Location) (dest : Path)
    (region : Location) : Prop where
  resolves : Follows before current dest region
  isDirectory : before.IsDirectory region
  unshared : Unshared region before

/-- The step condition: a hard link is made on the side of the file it is made
from, and the path of a regular file leads to the inside. -/
def LinksOnOneSide (current region : Location) (here : Disk) : TarOp → Prop
  | .unpack entry dst => entry.entryType = .hardLink →
      ∀ source, entry.effectiveLink = some source →
        KeepsSides region current here (.link source dst)
  | .createFile path => ∀ file, KeepsSides region current here (.create path file)
  | .openArchive | .createDirAll _ | .copy .. => True

/-- The calls that write the file of a regular entry. -/
def TarOp.WritesRegular : TarOp → Prop
  | .createFile _ | .copy .. => True
  | .openArchive | .createDirAll _ | .unpack .. => False

/-- No inode is shared across the boundary of the region, and the next call, if it
writes the file of a regular entry, changes no file outside. -/
structure StaysApart (world : World tarSignature Disk) (region : Location)
    (remainder : TarProgram (Result Unit)) (here : Disk) : Prop where
  unshared : Unshared region here.fs
  contents : ∀ op response rest next, op.WritesRegular →
    Reaches world remainder here [⟨op, response⟩] rest next →
    ∀ location, ¬ region <+: location →
      next.fs.contentAt location = here.fs.contentAt location

/-- What is unpacked as anything but a hard link keeps the sides on every disk. -/
theorem unpackChanges_keepsSides {region current : Location} {entry : TarEntry} {dst : Path}
    {actions : List Action} (notHardLink : entry.entryType ≠ .hardLink)
    (changes : UnpackChanges entry dst actions) :
    ∀ action ∈ actions, ∀ here, KeepsSides region current here action := by
  intro action member here
  rcases changes.mem member with ⟨_, rfl⟩ | ⟨_, rfl | ⟨target, _, rfl⟩⟩ | ⟨isHardLink, _⟩ |
    ⟨_, rfl | ⟨count, rfl⟩⟩
  · exact trivial
  · exact trivial
  · exact trivial
  · exact absurd isHardLink notHardLink
  · exact trivial
  · exact trivial

/-- A step that meets the condition keeps the sides apart. -/
theorem answer_separate {region current : Location} {here next : Disk} {op : TarOp}
    {response : tarSignature.Response op} (separate : Separate region here)
    (meets : LinksOnOneSide current region here op)
    (answer : (tarDisk current).Answers here op response next) : Separate region next := by
  obtain ⟨actions, changes, performs, _⟩ := answer
  have alone : ∀ {action}, actions = [action] → KeepsSides region current here action →
      Separate region next := by
    rintro action rfl keeps
    obtain ⟨_, step⟩ := performs.of_singleton
    exact separate.performs keeps step
  cases op with
  | openArchive =>
      rw [show actions = [] from changes] at performs
      exact separate.performsAll (List.forall_mem_nil _) performs
  | createDirAll path =>
      refine separate.performsAll (fun action member here => ?_) performs
      obtain ⟨above, _, rfl⟩ := changes action member
      exact trivial
  | createFile path =>
      rcases changes with rfl | ⟨file, rfl | rfl⟩
      · exact separate.performsAll (List.forall_mem_nil _) performs
      · exact alone rfl (meets file)
      · exact alone rfl (meets file)
  | copy file bytes =>
      rcases changes with rfl | ⟨count, rfl⟩
      · exact separate.performsAll (List.forall_mem_nil _) performs
      · exact alone rfl trivial
  | unpack entry dst =>
      by_cases isHardLink : entry.entryType = .hardLink
      · simp only [TarOp.Changes, UnpackChanges, isHardLink] at changes
        rcases changes with rfl | ⟨source, isSource, rfl⟩
        · exact separate.performsAll (List.forall_mem_nil _) performs
        · exact alone rfl (meets isHardLink source isSource)
      · exact separate.performsAll (unpackChanges_keepsSides isHardLink changes) performs

/-- A regular entry's file is written without a change to a file outside. -/
theorem answer_contents {region current : Location} {here next : Disk} {op : TarOp}
    {response : tarSignature.Response op} (separate : Separate region here)
    (meets : LinksOnOneSide current region here op) (writes : op.WritesRegular)
    (answer : (tarDisk current).Answers here op response next) {location : Location}
    (outside : ¬ region <+: location) :
    next.fs.contentAt location = here.fs.contentAt location := by
  obtain ⟨actions, changes, performs, _⟩ := answer
  have unchanged : ∀ {action}, actions = [action] → KeepsSides region current here action →
      action.Writes → next.fs.contentAt location = here.fs.contentAt location := by
    rintro action rfl keeps writesFile
    obtain ⟨_, step⟩ := performs.of_singleton
    exact separate.contentAt_performs keeps writesFile step outside
  have nothing : actions = [] → next.fs.contentAt location = here.fs.contentAt location := by
    rintro rfl
    cases performs
    rfl
  cases op with
  | openArchive | createDirAll | unpack => exact writes.elim
  | createFile path =>
      rcases changes with isEmpty | ⟨file, isCreate | isTruncate⟩
      · exact nothing isEmpty
      · exact unchanged isCreate (meets file) trivial
      · exact unchanged isTruncate (meets file) trivial
  | copy file bytes =>
      rcases changes with isEmpty | ⟨count, isAppend⟩
      · exact nothing isEmpty
      · exact unchanged isAppend trivial trivial

/-- Every run whose steps keep to one side shares no inode with the outside and
writes no file there, whatever fails, at every cut. -/
theorem unpackEntries_apart {before : FileSystem} {current region : Location} {dest : Path}
    (apart : DestApart before current dest region) (archive : Archive) (limit : UInt64)
    {events : List (Event tarSignature)} {remainder : TarProgram (Result Unit)} {here : Disk}
    (run : Reaches ((tarDisk current).restrict (LinksOnOneSide current region))
      (unpackEntries archive dest limit) { fs := before } events remainder here) :
    StaysApart ((tarDisk current).restrict (LinksOnOneSide current region)) region remainder
      here := by
  have separate : Separate region here :=
    run.preserves (fun _ _ _ _ separate answer => answer_separate separate answer.1 answer.2)
      (Separate.initial apart.unshared)
  refine ⟨separate.unshared, fun op response rest next writes step location outside => ?_⟩
  cases step with
  | step answer done =>
      obtain ⟨_, rfl⟩ := done.of_nil
      exact answer_contents separate answer.1 writes answer.2 outside

/-- A disk with a destination `/work/out`, a file in it, and one beside it. -/
def workDisk : FileSystem where
  node location :=
    if location = [] ∨ location = ["work"] ∨ location = ["work", "out"] then some .directory
    else if location = ["work", "secret"] then some (.entry 0)
    else if location = ["work", "out", "a"] then some (.entry 1)
    else none
  inode _ := .file [7]

/-- A hard link `x`. -/
def hardLinkEntry (source : Path) : TarEntry :=
  { TarEntry.bare .hardLink [.normal "x"] with linkName := .ok (some source) }

/-- A hard link, and a file that is written under its name. The check accepts the
source if it leads down. -/
def linkThenWrite (source : Path) : List (Except IoError TarEntry) :=
  [.ok (hardLinkEntry source), .ok (.ofByte [.normal "x"] 42)]

/-- The disk when the hard link to an inode has been made. -/
def hardLinkedDisk (source : Path) (number : Nat) : Disk where
  fs := workDisk.put ["work", "out", "x"] (.entry number)
  performed := [(.link source [.normal "out", .normal "x"], ["work", "out", "x"])]

/-- The entries of the disk and their inodes. -/
theorem workDisk_entry {location : Location} {number : Nat}
    (isEntry : workDisk.node location = some (.entry number)) :
    location = ["work", "secret"] ∧ number = 0 ∨ location = ["work", "out", "a"] ∧ number = 1 := by
  simp only [workDisk] at isEntry
  split_ifs at isEntry with isDirectory isSecret isInner
  · cases isEntry
  · cases isEntry
    exact .inl ⟨isSecret, rfl⟩
  · cases isEntry
    exact .inr ⟨isInner, rfl⟩

/-- The destination, taken from the working directory. -/
theorem workDisk_out : Follows workDisk ["work"] [.normal "out"] ["work", "out"] ∧
    workDisk.IsDirectory ["work", "out"] :=
  have isDirectory : workDisk.IsDirectory ["work", "out"] := by decide
  ⟨.directory isDirectory .here, isDirectory⟩

/-- A name in the destination can be made. -/
theorem workDisk_locates (name : String) :
    Locates workDisk ["work"] [.normal "out", .normal name] ["work", "out", name] :=
  ⟨[.normal "out"], ["work", "out"], name, rfl, workDisk_out.1, workDisk_out.2, rfl⟩

/-- The destination shares nothing with the outside. -/
theorem workDisk_apart : DestApart workDisk ["work"] [.normal "out"] ["work", "out"] := by
  refine ⟨workDisk_out.1, workDisk_out.2, ?_⟩
  intro inner outer number inside outside isInner isOuter
  rcases workDisk_entry isInner with ⟨rfl, rfl⟩ | ⟨rfl, rfl⟩
  · exact absurd inside (by decide)
  · rcases workDisk_entry isOuter with ⟨_, isOther⟩ | ⟨rfl, _⟩
    · cases isOther
    · exact outside (by decide)

/-- The link leaves the destination a directory. -/
theorem hardLinkedDisk_out (source : Path) (number : Nat) :
    (hardLinkedDisk source number).fs.IsDirectory ["work", "out"] := by
  simp [FileSystem.IsDirectory, hardLinkedDisk, FileSystem.put, workDisk]

/-- The linked inode is overwritten, in every world that allows the calls. -/
theorem linkThenWrite_run {source : Path} {origin : Location} (number : Nat)
    (meets : Disk → TarOp → Prop)
    (accepted : checkEntry [.normal "out"] (hardLinkEntry source) =
      .ok [.normal "out", .normal "x"])
    (locates : Locates workDisk ["work"] source origin)
    (present : workDisk.node origin = some (.entry number))
    (links : meets { fs := workDisk }
      (.unpack (hardLinkEntry source) [.normal "out", .normal "x"]))
    (opens : meets (hardLinkedDisk source number) (.createFile [.normal "out", .normal "x"]))
    (others : ∀ disk op, (∀ entry dst, op ≠ .unpack entry dst) → (∀ path, op ≠ .createFile path) →
      meets disk op) :
    ∃ events here, Reaches ((tarDisk ["work"]).restrict meets)
        (unpackEntries (.ok (linkThenWrite source)) [.normal "out"] 10) { fs := workDisk }
        events (.done (.ok ())) here ∧
      here.fs.node = (hardLinkedDisk source number).fs.node ∧
      here.fs.inode number = .file [42] := by
  let opened : Disk :=
    { fs := (hardLinkedDisk source number).fs.store number (.file [])
      opened := [(number, ["work", "out", "x"])]
      performed := (hardLinkedDisk source number).performed ++
        [(.truncate [.normal "out", .normal "x"] number, ["work", "out", "x"])] }
  let written : Disk :=
    { opened with
      fs := opened.fs.store number (.file ([] ++ [42]))
      performed := opened.performed ++ [(.append number [42], ["work", "out", "x"])] }
  let world := (tarDisk ["work"]).restrict meets
  have outIsDirectory := hardLinkedDisk_out source number
  have isLinked : (hardLinkedDisk source number).fs.node ["work", "out", "x"] =
      some (.entry number) := FileSystem.put_node_self ..
  have unpacks : world.Answers { fs := workDisk }
      (.unpack (hardLinkEntry source) [.normal "out", .normal "x"]) (.ok ())
      (hardLinkedDisk source number) := by
    refine ⟨links, [.link source _], .inr ⟨source, rfl, rfl⟩,
      .cons (.link locates present ?_ ?_) .nil, source, List.mem_cons_self⟩
    · exact workDisk_locates "x"
    · decide
  have makes : world.Answers (hardLinkedDisk source number) (.createDirAll [.normal "out"])
      (.ok ()) (hardLinkedDisk source number) := by
    refine ⟨others _ _ nofun nofun, [], nofun, .nil, ["work", "out"], ?_, outIsDirectory⟩
    exact .directory outIsDirectory .here
  have opensFile : world.Answers (hardLinkedDisk source number)
      (.createFile [.normal "out", .normal "x"]) (.ok number) opened := by
    refine ⟨opens, [.truncate _ number], .inr ⟨number, .inr rfl⟩,
      .cons (.truncate ?_ isLinked rfl) .nil, .inr rfl⟩
    refine .directory outIsDirectory (.last ?_ ?_)
    · simp [isLinked]
    · rintro target ⟨other, _, isTarget⟩
      cases isTarget
  have copies : world.Answers opened (.copy number [42]) (.ok 1) written := by
    refine ⟨others _ _ nofun nofun, [.append number [42]], .inr ⟨1, rfl⟩,
      .cons (.append ?_ ?_) .nil, rfl, rfl⟩
    · exact List.mem_cons_self
    · simp [opened]
  have run : ∃ events, Reaches world (unpackEntries (.ok (linkThenWrite source)) [.normal "out"] 10)
      { fs := workDisk } events (.done (.ok ())) written := by
    simp only [unpackEntries, linkThenWrite, unpackLoop, unpackEntry, accepted]
    exact ⟨_, .step unpacks (.step makes (.step opensFile (.step copies .refl)))⟩
  obtain ⟨events, run⟩ := run
  exact ⟨events, written, run, rfl, by simp [written]⟩

/-- Without links a path below `out` leads into it. -/
theorem follows_out {fs : FileSystem} {path : Path} {location : Location}
    (isDirectory : fs.IsDirectory ["work", "out"])
    (noLinks : ∀ location target, ¬ fs.SymlinkAt location target) (descends : Descends path)
    (follows : Follows fs ["work"] ([.normal "out"] ++ path) location) :
    ["work", "out"] <+: location := by
  have enters : Follows fs ["work"] [.normal "out"] ["work", "out"] := .directory isDirectory .here
  refine (enters.of_append isDirectory follows).inside ?_ descends (List.prefix_refl _)
  exact fun location target _ link => absurd link (noLinks location target)

/-- A name in `out` stands inside. -/
theorem locates_out {name : String} {location : Location}
    (locates : Locates workDisk ["work"] [.normal "out", .normal name] location) :
    ["work", "out"] <+: location := by
  obtain ⟨front, directory, last, isPath, follows, _, rfl⟩ := locates
  have split : [Component.normal "out"] ++ [.normal name] = front ++ [.normal last] := isPath
  obtain rfl : [Component.normal "out"] = front := (List.append_inj' split rfl).1
  have noLinks : ∀ location target, ¬ workDisk.SymlinkAt location target := by
    rintro location target ⟨number, _, isTarget⟩
    cases isTarget
  have inside : ["work", "out"] <+: directory :=
    follows_out workDisk_out.2 noLinks (List.forall_mem_nil _) follows
  exact inside.trans (List.prefix_append _ _)

/-- A hard link made inside keeps everything apart. -/
theorem unpackEntries_apart_inner_link :
    ∃ events here, Reaches ((tarDisk ["work"]).restrict (LinksOnOneSide ["work"] ["work", "out"]))
        (unpackEntries (.ok (linkThenWrite [.normal "out", .normal "a"])) [.normal "out"] 10)
        { fs := workDisk } events (.done (.ok ())) here ∧
      StaysApart ((tarDisk ["work"]).restrict (LinksOnOneSide ["work"] ["work", "out"]))
        ["work", "out"] (.done (.ok ())) here := by
  have links : LinksOnOneSide ["work"] ["work", "out"] { fs := workDisk }
      (.unpack (hardLinkEntry [.normal "out", .normal "a"]) [.normal "out", .normal "x"]) := by
    intro _ source isSource origin location number originLocates _ locates _
    cases isSource
    exact iff_of_true (locates_out originLocates) (locates_out locates)
  have opens : LinksOnOneSide ["work"] ["work", "out"]
      (hardLinkedDisk [.normal "out", .normal "a"] 1)
      (.createFile [.normal "out", .normal "x"]) := by
    intro file location follows _
    refine follows_out ?_ ?_ (by decide) follows
    · exact hardLinkedDisk_out _ 1
    · rintro other target ⟨number, _, isTarget⟩
      cases isTarget
  have others : ∀ disk op, (∀ entry dst, op ≠ TarOp.unpack entry dst) →
      (∀ path, op ≠ TarOp.createFile path) →
      LinksOnOneSide ["work"] ["work", "out"] disk op := by
    intro disk op notUnpack notCreate
    cases op with
    | unpack entry dst => exact absurd rfl (notUnpack entry dst)
    | createFile path => exact absurd rfl (notCreate path)
    | openArchive | createDirAll | copy => trivial
  obtain ⟨events, here, run, _⟩ := linkThenWrite_run 1
    (LinksOnOneSide ["work"] ["work", "out"]) rfl (workDisk_locates "a") (by decide) links opens
    others
  exact ⟨events, here, run, unpackEntries_apart workDisk_apart _ 10 run⟩

/-- Hard-link confinement of one archive: whatever the disk, the destination, and
the working directory, every cut of every run stays apart from the outside. -/
def HardLinksConfined (archive : Archive) : Prop :=
  ∀ before current dest region limit events remainder here,
    DestApart before current dest region →
    Reaches (tarDisk current) (unpackEntries archive dest limit) { fs := before } events
      remainder here →
    StaysApart (tarDisk current) region remainder here

/-- A hard link to `secret`, taken from the working directory `/work`: the regular
entry overwrites `/work/secret`. -/
theorem linkThenWrite_shares : ¬ HardLinksConfined (.ok (linkThenWrite [.normal "secret"])) := by
  intro confined
  have outer : Locates workDisk ["work"] [.normal "secret"] ["work", "secret"] :=
    ⟨[], ["work"], "secret", rfl, .here, by decide, rfl⟩
  obtain ⟨events, here, run, isNode, _⟩ := linkThenWrite_run 0 (fun _ _ => True) rfl
    outer (by decide) trivial trivial fun _ _ _ _ => trivial
  have apart := confined workDisk ["work"] [.normal "out"] ["work", "out"] 10 events _ here
    workDisk_apart (run.in_world fun _ _ _ _ answer => answer.2)
  refine apart.unshared ["work", "out", "x"] ["work", "secret"] 0 (by decide) (by decide) ?_ ?_
  · rw [isNode, hardLinkedDisk, FileSystem.put_node_self]
  · rw [isNode]
    decide

end AltairRs.Compress
