import AltairRs.Compress.TarDisk
import AltairRs.Effect.Policy
import AltairRs.Unix.Confinement

/-!
# Symlinks in archives

Extraction is confined as long as every symlink it makes has a target that
`checkLinkTarget` accepts. The code checks the raw link name of the header; an
extension link name, which `Entry::unpack` prefers, is not checked.
-/

namespace AltairRs.Compress

open Effect Unix

/-- What an extraction may ask for: paths below the destination, and entries of
the archive that are not copied. -/
def Extracts (dest : Path) (entries : List (Except IoError TarEntry)) : TarOp → Prop
  | .openArchive | .copy .. => True
  | .createDirAll path => ∃ below, Descends below ∧ path <+: dest ++ below
  | .createFile path => Below dest path
  | .unpack entry dst => .ok entry ∈ entries ∧ entry.entryType ≠ .regular ∧ Below dest dst ∧
      ∃ entryPath, checkEntryLinks entry entryPath = .ok ()

/-- A path that leads down stays below the base it is joined to. -/
theorem join_below (base : Path) {path : Path} (descends : Descends path) :
    Below base (join base path) := by
  cases path with
  | nil => exact ⟨[.curDir], by simp, by decide, rfl⟩
  | cons first rest =>
      have firstDescends := descends first List.mem_cons_self
      cases first with
      | curDir => exact ⟨.curDir :: rest, by simp, descends, rfl⟩
      | normal name => exact ⟨.normal name :: rest, by simp, descends, rfl⟩
      | drive | rootDir | parentDir => exact firstDescends.elim

/-- The directories above a path below the destination are below it. -/
theorem createParents_extracts {dest path : Path} {entries : List (Except IoError TarEntry)}
    (below : Below dest path) : Requests (Extracts dest entries) (createParents path) := by
  obtain ⟨rest, _, descends, rfl⟩ := below
  unfold createParents
  cases isParent : parent (dest ++ rest) with
  | none => exact trivial
  | some above => exact .perform ⟨rest, descends, parent_prefix isParent⟩

/-- A file is written below the destination. -/
theorem unpackRegular_extracts {dest safeDest : Path} {entries : List (Except IoError TarEntry)}
    (below : Below dest safeDest) (limit : UInt64) (total : Nat) (entry : TarEntry) :
    Requests (Extracts dest entries) (unpackRegular limit total entry safeDest) := by
  apply Requests.bind (createParents_extracts below)
  intro made
  cases made with
  | error e => exact trivial
  | ok _ =>
      apply Requests.bind (.perform below)
      intro created
      cases created with
      | error e => exact trivial
      | ok file =>
          apply Requests.bind (.perform trivial)
          intro copied
          cases copied with
          | error e => exact trivial
          | ok written =>
              by_cases exceeds : limit.toNat < saturatingAdd total written
              · simp only [exceeds, if_true]
                exact trivial
              · simp only [exceeds, if_false]
                exact trivial

/-- Every entry is unpacked below the destination. -/
theorem unpackLoop_extracts {dest : Path} {entries : List (Except IoError TarEntry)}
    (limit : UInt64) (total : Nat) (rest : List (Except IoError TarEntry))
    (suffix : ∀ item ∈ rest, item ∈ entries) :
    Requests (Extracts dest entries) (unpackLoop dest limit total rest) := by
  induction rest generalizing total with
  | nil => exact trivial
  | cons item rest ih =>
      obtain ⟨member, later⟩ := List.forall_mem_cons.mp suffix
      cases item with
      | error e => exact trivial
      | ok entry =>
          have body : Requests (Extracts dest entries) (unpackEntry dest limit total entry) := by
            unfold unpackEntry
            cases checked : checkEntry dest entry with
            | error e => exact trivial
            | ok safeDest =>
                obtain ⟨entryPath, _, descends, linksChecked, rfl⟩ := checkEntry_eq_ok checked
                have below := join_below dest descends
                by_cases regular : entry.entryType = .regular
                · simp only [EntryType.isFile, regular, decide_true, if_true]
                  exact unpackRegular_extracts below limit total entry
                · simp only [EntryType.isFile, regular, decide_false]
                  refine Requests.bind
                    (.perform ⟨member, regular, below, entryPath, linksChecked⟩) fun unpacked => ?_
                  cases unpacked with
                  | error e => exact trivial
                  | ok _ => exact trivial
          apply Requests.bind body
          intro returned
          cases returned with
          | error e => exact trivial
          | ok total => exact ih total later

/-- The step condition: the extension link name of a symlink, if it has one, is one
that the check would accept. -/
def ExtensionAccepted (_ : Disk) : TarOp → Prop
  | .unpack entry _ => entry.entryType = .symlink →
      ∀ link, entry.linkExtension = some link →
        ∀ entryPath, checkLinkTarget entryPath link = .ok ()
  | _ => True

/-- The effective link name of a checked symlink leads down: either it is the raw
name, which was checked, or the accepted extension. -/
theorem effectiveLink_descends {entry : TarEntry} {entryPath target : Path}
    (isSymlink : entry.entryType = .symlink)
    (checked : checkEntryLinks entry entryPath = .ok ())
    (accepted : ∀ link, entry.linkExtension = some link →
      ∀ entryPath, checkLinkTarget entryPath link = .ok ())
    (isTarget : entry.effectiveLink = some target) : Descends target := by
  unfold TarEntry.effectiveLink at isTarget
  cases extension : entry.linkExtension with
  | some link =>
      rw [extension] at isTarget
      cases isTarget
      exact (rejectEscapes_eq_ok_iff [] target).mp (accepted target extension [])
  | none =>
      rw [extension] at isTarget
      cases raw : entry.linkName with
      | error e =>
          rw [raw] at isTarget
          cases isTarget
      | ok link =>
          rw [raw] at isTarget
          rw [show link = some target from isTarget] at raw
          simp only [checkEntryLinks, EntryType.isSymlink, isSymlink, decide_true, Bool.true_or,
            if_true, raw] at checked
          exact (rejectEscapes_eq_ok_iff entryPath target).mp checked

/-- Only files, directories, and symlinks. -/
def FilesDirectoriesSymlinks (entries : List (Except IoError TarEntry)) : Prop :=
  ∀ entry, .ok entry ∈ entries → entry.entryType = .regular ∨ entry.entryType = .directory ∨
    entry.entryType = .symlink

/-- Everything created or written so far is inside the region, and every symlink
in it has a target the check accepts. -/
structure StaysInside (region : Location) (disk : Disk) : Prop where
  performed : ∀ change ∈ disk.performed, region <+: change.2
  links : ∀ location target, region <+: location → disk.fs.SymlinkAt location target →
    ∀ entryPath, checkLinkTarget entryPath target = .ok ()

/-- An accepted step makes permitted changes only. -/
theorem changes_permitted {dest : Path} {entries : List (Except IoError TarEntry)}
    (kinds : FilesDirectoriesSymlinks entries) {op : TarOp} {here : Disk}
    {actions : List Action} (extracts : Extracts dest entries op)
    (accepted : ExtensionAccepted here op) (changes : op.Changes actions) :
    ∀ action ∈ actions, Permitted dest action := by
  cases op with
  | openArchive =>
      rw [show actions = [] from changes]
      exact nofun
  | createDirAll path =>
      obtain ⟨below, descends, onTheWay⟩ := extracts
      intro action member
      obtain ⟨above, isAbove, rfl⟩ := changes action member
      exact ⟨below, descends, isAbove.trans onTheWay⟩
  | createFile path =>
      rcases changes with rfl | ⟨file, rfl | rfl⟩
      · exact nofun
      · exact List.forall_mem_singleton.mpr extracts
      · exact List.forall_mem_singleton.mpr extracts
  | copy file bytes =>
      rcases changes with rfl | ⟨count, rfl⟩
      · exact nofun
      · exact List.forall_mem_singleton.mpr trivial
  | unpack entry dst =>
      obtain ⟨member, notRegular, below, entryPath, linksChecked⟩ := extracts
      have isKind := (kinds entry member).resolve_left notRegular
      intro action isAction
      rcases UnpackChanges.mem changes isAction with ⟨_, rfl⟩ |
        ⟨isSymlink, rfl | ⟨target, isTarget, rfl⟩⟩ | ⟨isHardLink, _⟩ | ⟨hasPayload, _⟩
      · obtain ⟨rest, nonempty, descends, rfl⟩ := below
        exact ⟨rest, descends, List.prefix_refl _⟩
      · exact below
      · exact ⟨effectiveLink_descends isSymlink linksChecked (accepted isSymlink) isTarget, below⟩
      · rw [isHardLink] at isKind
        exact isKind.elim nofun nofun
      · rcases isKind with isDirectory | isSymlink
        · rw [isDirectory] at hasPayload
          cases hasPayload
        · rw [isSymlink] at hasPayload
          cases hasPayload

/-- Every run without a rejected extension link name stays inside the destination,
whatever fails, at every cut. -/
theorem unpackEntries_confined {before : FileSystem} {current region : Location} {dest : Path}
    {entries : List (Except IoError TarEntry)} (isRegion : Region before current dest region)
    (kinds : FilesDirectoriesSymlinks entries) (limit : UInt64)
    {events : List (Event tarSignature)} {remainder : TarProgram (Result Unit)} {here : Disk}
    (run : Reaches ((tarDisk current).restrict ExtensionAccepted)
      (unpackEntries (.ok entries) dest limit) { fs := before } events remainder here) :
    StaysInside region here := by
  have requests : Requests (Extracts dest entries) (unpackEntries (.ok entries) dest limit) :=
    unpackLoop_extracts limit 0 entries fun _ member => member
  have confined : Confined before region here := by
    refine requests.preserves ?_ run (Confined.initial isRegion)
    rintro disk op response next extracts confined ⟨accepted, actions, changes, performs, _⟩
    exact performs.preserves
      (fun _ _ _ _ permitted confined step => confined.performs isRegion permitted step)
      (changes_permitted kinds extracts accepted changes) confined
  refine ⟨confined.performed, fun location target inside link entryPath => ?_⟩
  exact (rejectEscapes_eq_ok_iff entryPath target).mpr
    (confined.links location target inside link)

/-- A disk with `/etc` and a destination `/out` that has a directory `sub`. -/
def freshDisk : FileSystem where
  node location :=
    if location ∈ [[], ["etc"], ["out"], ["out", "sub"]] then some .directory else none
  inode _ := .file []

/-- A symlink `link` whose header names `sub`; an extension may override it. -/
def linkEntry (extension : Option Path) : TarEntry :=
  { TarEntry.bare .symlink [.normal "link"] with
    linkName := .ok (some [.normal "sub"])
    linkExtension := extension }

/-- A symlink, and a file that is written through it. -/
def throughLink (extension : Option Path) : List (Except IoError TarEntry) :=
  [.ok (linkEntry extension), .ok (.ofByte [.normal "link", .normal "x"] 42)]

/-- The disk when the symlink has been made. -/
def linkedDisk (target : Path) : Disk where
  fs := (freshDisk.put ["out", "link"] (.entry 0)).store 0 (.symlink target)
  performed := [(.symlink target [.normal "out", .normal "link"], ["out", "link"])]

/-- The fresh disk has no entries. -/
theorem freshDisk_unnamed (number : Nat) (location : Location) :
    freshDisk.node location ≠ some (.entry number) := by
  unfold freshDisk
  by_cases known : location ∈ [[], ["etc"], ["out"], ["out", "sub"]] <;> simp [known]

/-- The destination, taken from the root. -/
theorem freshDisk_out : Follows freshDisk [] [.normal "out"] ["out"] ∧
    freshDisk.IsDirectory ["out"] :=
  have isDirectory : freshDisk.IsDirectory ["out"] := by decide
  ⟨.directory isDirectory .here, isDirectory⟩

/-- The disk with the link has no other entry. -/
theorem linkedDisk_unnamed (target : Path) (location : Location) :
    (linkedDisk target).fs.node location ≠ some (.entry 1) := by
  by_cases same : location = ["out", "link"]
  · subst same
    simp [linkedDisk]
  · simp only [linkedDisk, FileSystem.store_node]
    rw [FileSystem.put_node_ne _ _ same]
    exact freshDisk_unnamed 1 location

/-- The file is written where the link leads, in every world that allows the calls. -/
theorem throughLink_run (extension : Option Path) (target : Path) (directory : Location)
    (meets : Disk → TarOp → Prop)
    (isTarget : (linkEntry extension).effectiveLink = some target)
    (enters : Follows (linkedDisk target).fs ["out"] target directory)
    (isDirectory : (linkedDisk target).fs.IsDirectory directory)
    (reaches : Follows (linkedDisk target).fs ["out"] (target ++ [.normal "x"])
      (directory ++ ["x"]))
    (absent : (linkedDisk target).fs.node (directory ++ ["x"]) = none)
    (allowed : ∀ disk op, (∀ entry dst, op = .unpack entry dst → entry = linkEntry extension) →
      meets disk op) :
    ∃ events here, Reaches ((tarDisk []).restrict meets)
        (unpackEntries (.ok (throughLink extension)) [.normal "out"] 10) { fs := freshDisk }
        events (.done (.ok ())) here ∧
      directory ++ ["x"] ∈ here.performed.map Prod.snd := by
  have isLink : (linkedDisk target).fs.SymlinkAt ["out", "link"] target :=
    ⟨0, by simp [linkedDisk], by simp [linkedDisk]⟩
  have outIsDirectory : (linkedDisk target).fs.IsDirectory ["out"] := by
    simp [FileSystem.IsDirectory, linkedDisk, FileSystem.store, FileSystem.put, freshDisk]
  let created : Disk :=
    { fs := ((linkedDisk target).fs.put (directory ++ ["x"]) (.entry 1)).store 1 (.file [])
      opened := [(1, directory ++ ["x"])]
      performed := (linkedDisk target).performed ++
        [(.create [.normal "out", .normal "link", .normal "x"] 1, directory ++ ["x"])] }
  let copied : Disk :=
    { created with
      fs := created.fs.store 1 (.file ([] ++ [42]))
      performed := created.performed ++ [(.append 1 [42], directory ++ ["x"])] }
  let world := (tarDisk []).restrict meets
  have unpacks : world.Answers { fs := freshDisk }
      (.unpack (linkEntry extension) [.normal "out", .normal "link"]) (.ok ())
      (linkedDisk target) := by
    refine ⟨allowed _ _ (by rintro _ _ ⟨⟩; rfl), [.symlink target _],
      .inr ⟨target, isTarget, by simp⟩, .cons (.symlink ?_ ?_ ?_) .nil, target, by simp⟩
    · exact ⟨[.normal "out"], ["out"], "link", rfl, freshDisk_out.1, freshDisk_out.2, rfl⟩
    · decide
    · exact ⟨freshDisk_unnamed 0, List.forall_mem_nil _⟩
  have makes : world.Answers (linkedDisk target)
      (.createDirAll [.normal "out", .normal "link"]) (.ok ()) (linkedDisk target) := by
    refine ⟨allowed _ _ (by rintro _ _ ⟨⟩), [], List.forall_mem_nil _, .nil, directory, ?_,
      isDirectory⟩
    refine .directory outIsDirectory (.symlink isLink ?_)
    rwa [List.append_nil]
  have creates : world.Answers (linkedDisk target)
      (.createFile [.normal "out", .normal "link", .normal "x"]) (.ok 1) created := by
    refine ⟨allowed _ _ (by rintro _ _ ⟨⟩), [.create _ 1], .inr ⟨1, .inl rfl⟩,
      .cons (.create ?_ absent ?_) .nil, .inl rfl⟩
    · exact .directory outIsDirectory (.symlink isLink reaches)
    · exact ⟨linkedDisk_unnamed target, List.forall_mem_nil _⟩
  have copies : world.Answers created (.copy 1 [42]) (.ok 1) copied := by
    refine ⟨allowed _ _ (by rintro _ _ ⟨⟩), [.append 1 [42]], .inr ⟨1, rfl⟩,
      .cons (.append ?_ ?_) .nil, rfl, rfl⟩
    · exact List.mem_cons_self
    · simp [created]
  exact ⟨_, copied, .step unpacks (.step makes (.step creates (.step copies .refl))),
    by simp [copied, created]⟩

/-- The fresh disk's destination is a region. -/
theorem freshDisk_region : Region freshDisk [] [.normal "out"] ["out"] := by
  refine ⟨freshDisk_out.1, freshDisk_out.2, ?_⟩
  rintro location target _ ⟨number, isEntry, _⟩
  exact freshDisk_unnamed number location isEntry

/-- The archive has a symlink and a file. -/
theorem throughLink_kinds (extension : Option Path) :
    FilesDirectoriesSymlinks (throughLink extension) := by
  intro entry member
  simp only [throughLink, List.mem_cons, Except.ok.injEq, List.not_mem_nil, or_false] at member
  rcases member with rfl | rfl
  · exact .inr (.inr rfl)
  · exact .inl rfl

/-- Without an extension the file goes to `/out/sub/x`. -/
theorem unpackEntries_confined_plain_link :
    ∃ events here, Reaches ((tarDisk []).restrict ExtensionAccepted)
      (unpackEntries (.ok (throughLink none)) [.normal "out"] 10) { fs := freshDisk } events
      (.done (.ok ())) here ∧ StaysInside ["out"] here := by
  have accepted : ∀ disk op, (∀ entry dst, op = TarOp.unpack entry dst → entry = linkEntry none) →
      ExtensionAccepted disk op := by
    intro disk op onlyLink
    cases op with
    | unpack entry dst =>
        rw [onlyLink entry dst rfl]
        exact fun _ link isExtension => absurd isExtension nofun
    | openArchive | createDirAll | createFile | copy => trivial
  obtain ⟨events, here, run, _⟩ := throughLink_run none [.normal "sub"] ["out", "sub"]
    ExtensionAccepted rfl (.directory (by decide) .here) (by decide)
    (.directory (by decide) (.last (by decide) (by rintro _ ⟨_, isEntry, _⟩; cases isEntry)))
    (by decide) accepted
  exact ⟨events, here, run, unpackEntries_confined freshDisk_region (throughLink_kinds none) 10 run⟩

/-- Symlink confinement of one archive: whatever the disk, the destination, and
the working directory, every cut of every run stays inside. -/
def SymlinksConfined (entries : List (Except IoError TarEntry)) : Prop :=
  ∀ before current dest region limit events remainder here,
    Region before current dest region →
    Reaches (tarDisk current) (unpackEntries (.ok entries) dest limit) { fs := before } events
      remainder here →
    StaysInside region here

/-- A PAX link name `/etc` behind an innocent header: the file goes to `/etc/x`. -/
theorem throughLink_escapes :
    ¬ SymlinksConfined (throughLink (some [.rootDir, .normal "etc"])) := by
  intro confined
  obtain ⟨events, here, run, written⟩ := throughLink_run (some [.rootDir, .normal "etc"])
    [.rootDir, .normal "etc"] ["etc"] (fun _ _ => True) rfl
    (.rootDir (.directory (by decide) .here)) (by decide)
    (.rootDir (.directory (by decide)
      (.last (by decide) (by rintro _ ⟨_, isEntry, _⟩; cases isEntry))))
    (by decide) fun _ _ _ => trivial
  have stays := confined freshDisk [] [.normal "out"] ["out"] 10 events _ here freshDisk_region
    (run.in_world fun _ _ _ _ answer => answer.2)
  obtain ⟨change, member, isLocation⟩ := List.mem_map.mp written
  have inside := stays.performed change member
  rw [isLocation] at inside
  revert inside
  decide

end AltairRs.Compress
