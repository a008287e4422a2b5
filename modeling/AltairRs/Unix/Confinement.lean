import AltairRs.Unix.FileSystem

/-!
# Staying below a directory

A process that only uses paths below a base, and only makes links that lead
down, never leaves the directory the base stands for. `Confined` is the
invariant; it compares the disk with the file system the process found, because
the base itself may lead through links elsewhere.
-/

namespace Unix

/-- A base path that stands for a directory without links below it. -/
structure Region (fs : FileSystem) (current : Location) (base : Path) (region : Location) :
    Prop where
  resolves : Follows fs current base region
  isDirectory : fs.IsDirectory region
  noLinks : ∀ location target, region <+: location → ¬ fs.SymlinkAt location target

/-- Everything done so far was done in the region, and its links lead down. -/
structure Confined (before : FileSystem) (region : Location) (disk : Disk) : Prop where
  directories : ∀ location, before.IsDirectory location → disk.fs.IsDirectory location
  outside : ∀ location target, ¬ region <+: location → before.SymlinkAt location target →
    disk.fs.SymlinkAt location target
  links : ∀ location target, region <+: location → disk.fs.SymlinkAt location target →
    Descends target
  opened : ∀ file ∈ disk.opened, region <+: file.2
  performed : ∀ change ∈ disk.performed, region <+: change.2

/-- A path strictly below the base. -/
def Below (base path : Path) : Prop :=
  ∃ below, below ≠ [] ∧ Descends below ∧ path = base ++ below

/-- Changes below the base; directories may be made anywhere on the way there. -/
def Permitted (base : Path) : Action → Prop
  | .mkdir path => ∃ below, Descends below ∧ path <+: base ++ below
  | .create path _ | .truncate path _ | .createNew path _ | .unlink path => Below base path
  | .symlink target path => Descends target ∧ Below base path
  | .append .. => True
  | .link .. => False

/-- A directory is no link. -/
theorem FileSystem.IsDirectory.not_symlink {fs : FileSystem} {location : Location} {target : Path}
    (isDirectory : fs.IsDirectory location) : ¬ fs.SymlinkAt location target := by
  rintro ⟨number, isEntry, _⟩
  rw [isDirectory] at isEntry
  cases isEntry

/-- A link has one target. -/
theorem FileSystem.SymlinkAt.unique {fs : FileSystem} {location : Location} {target other : Path}
    (link : fs.SymlinkAt location target) (same : fs.SymlinkAt location other) :
    target = other := by
  obtain ⟨number, isEntry, isTarget⟩ := link
  obtain ⟨otherNumber, isOtherEntry, isOther⟩ := same
  rw [isEntry] at isOtherEntry
  cases isOtherEntry
  rw [isTarget] at isOther
  cases isOther
  rfl

/-- What a name at the front of a path may be. -/
theorem Follows.of_normal {fs : FileSystem} {current location : Location} {name : String}
    {rest : Path} (follows : Follows fs current (.normal name :: rest) location) :
    fs.IsDirectory (current ++ [name]) ∧ Follows fs (current ++ [name]) rest location ∨
    (∃ target, fs.SymlinkAt (current ++ [name]) target ∧
      Follows fs current (target ++ rest) location) ∨
    ¬ fs.IsDirectory (current ++ [name]) ∧ (∀ target, ¬ fs.SymlinkAt (current ++ [name]) target) ∧
      location = current ++ [name] := by
  cases follows with
  | directory isDirectory next => exact .inl ⟨isDirectory, next⟩
  | symlink link next => exact .inr (.inl ⟨_, link, next⟩)
  | last notDirectory notLink => exact .inr (.inr ⟨notDirectory, notLink, rfl⟩)

/-- Following a longer path goes through the directory its front leads to. -/
theorem Follows.of_append {fs : FileSystem} {current directory : Location} {front : Path}
    (first : Follows fs current front directory) (isDirectory : fs.IsDirectory directory)
    {rest : Path} {location : Location} (whole : Follows fs current (front ++ rest) location) :
    Follows fs directory rest location := by
  induction first with
  | here => exact whole
  | rootDir _ ih =>
      cases whole with
      | rootDir next => exact ih isDirectory next
  | curDir _ ih =>
      cases whole with
      | curDir next => exact ih isDirectory next
  | parentDir _ ih =>
      cases whole with
      | parentDir next => exact ih isDirectory next
  | directory isDir _ ih =>
      rw [List.cons_append] at whole
      rcases whole.of_normal with ⟨_, next⟩ | ⟨_, link, _⟩ | ⟨notDirectory, _, _⟩
      · exact ih isDirectory next
      · exact absurd link isDir.not_symlink
      · exact absurd isDir notDirectory
  | symlink link _ ih =>
      rw [List.cons_append] at whole
      rcases whole.of_normal with ⟨isDir, _⟩ | ⟨target, otherLink, next⟩ | ⟨_, notLink, _⟩
      · exact absurd link isDir.not_symlink
      · rw [← link.unique otherLink, ← List.append_assoc] at next
        exact ih isDirectory next
      · exact absurd link (notLink _)
  | last notDirectory _ => exact absurd isDirectory notDirectory

/-- With links that lead down, a path that leads down stays in the region. -/
theorem Follows.inside {fs : FileSystem} {region current location : Location} {path : Path}
    (links : ∀ location target, region <+: location → fs.SymlinkAt location target →
      Descends target)
    (follows : Follows fs current path location) (descends : Descends path)
    (start : region <+: current) : region <+: location := by
  induction follows with
  | here => exact start
  | rootDir _ _ => exact absurd (descends _ List.mem_cons_self) (by decide)
  | curDir _ ih => exact ih (List.forall_mem_cons.mp descends).2 start
  | parentDir _ _ => exact absurd (descends _ List.mem_cons_self) (by decide)
  | directory _ _ ih =>
      exact ih (List.forall_mem_cons.mp descends).2 (start.trans (List.prefix_append _ _))
  | symlink link _ ih =>
      have targetDescends := links _ _ (start.trans (List.prefix_append _ _)) link
      refine ih (List.forall_mem_append.mpr ⟨targetDescends, ?_⟩) start
      exact (List.forall_mem_cons.mp descends).2
  | last _ _ => exact start.trans (List.prefix_append _ _)

variable {before : FileSystem} {current region : Location} {base : Path} {disk : Disk}

/-- The base still stands for the region. -/
theorem Confined.resolves (confined : Confined before region disk)
    (isRegion : Region before current base region) : Follows disk.fs current base region := by
  have persists : ∀ {start path location}, Follows before start path location →
      before.IsDirectory location → Follows disk.fs start path location := by
    intro start path location follows isDirectory
    induction follows with
    | here => exact .here
    | rootDir _ ih => exact .rootDir (ih isDirectory)
    | curDir _ ih => exact .curDir (ih isDirectory)
    | parentDir _ ih => exact .parentDir (ih isDirectory)
    | directory isDir _ ih => exact .directory (confined.directories _ isDir) (ih isDirectory)
    | symlink link _ ih =>
        -- The region had no links, so this one is outside and still there.
        have elsewhere := fun inside => isRegion.noLinks _ _ inside link
        exact .symlink (confined.outside _ _ elsewhere link) (ih isDirectory)
    | last notDirectory _ => exact absurd isDirectory notDirectory
  exact persists isRegion.resolves isRegion.isDirectory

/-- A path below the base leads into the region. -/
theorem Confined.follows_inside (confined : Confined before region disk)
    (isRegion : Region before current base region) {below : Path} {location : Location}
    (descends : Descends below) (follows : Follows disk.fs current (base ++ below) location) :
    region <+: location := by
  have rest := (confined.resolves isRegion).of_append
    (confined.directories _ isRegion.isDirectory) follows
  exact rest.inside confined.links descends (List.prefix_refl _)

/-- A name below the base stands in the region. -/
theorem Confined.locates_inside (confined : Confined before region disk)
    (isRegion : Region before current base region) {path : Path} {location : Location}
    (below : Below base path) (locates : Locates disk.fs current path location) :
    region <+: location := by
  obtain ⟨rest, nonempty, descends, rfl⟩ := below
  obtain ⟨front, directory, name, isPath, follows, _, rfl⟩ := locates
  obtain ⟨most, last, rfl⟩ := (List.eq_nil_or_concat rest).resolve_left nonempty
  rw [List.concat_eq_append, ← List.append_assoc] at isPath
  have sameFront : base ++ most = front := (List.append_inj' isPath rfl).1
  subst sameFront
  have mostDescends : Descends most := fun component member =>
    descends component (by simp [member])
  exact (confined.follows_inside isRegion mostDescends follows).trans (List.prefix_append _ _)

/-- Every name on the way to the base exists. -/
theorem Confined.present (confined : Confined before region disk)
    (isRegion : Region before current base region) {path : Path} {location : Location}
    (onTheWay : path <+: base) (locates : Locates disk.fs current path location) :
    disk.fs.node location ≠ none := by
  obtain ⟨front, directory, name, rfl, follows, isDirectory, rfl⟩ := locates
  obtain ⟨rest, isBase⟩ := onTheWay
  have resolves := confined.resolves isRegion
  rw [← isBase, List.append_assoc] at resolves
  rcases (follows.of_append isDirectory resolves).of_normal with
    ⟨isDir, _⟩ | ⟨_, ⟨number, isEntry, _⟩, _⟩ | ⟨notDirectory, _, sameLocation⟩
  · rw [isDir]
    nofun
  · rw [isEntry]
    nofun
  · rw [← sameLocation] at notDirectory
    exact absurd (confined.directories _ isRegion.isDirectory) notDirectory

/-- A directory made on the way below the base stands in the region. -/
theorem Confined.mkdir_inside (confined : Confined before region disk)
    (isRegion : Region before current base region) {path below : Path} {location : Location}
    (descends : Descends below) (onTheWay : path <+: base ++ below)
    (locates : Locates disk.fs current path location) (absent : disk.fs.node location = none) :
    region <+: location := by
  obtain ⟨rest, split⟩ := onTheWay
  rcases List.append_eq_append_iff.mp split with ⟨missing, isBase, _⟩ | ⟨more, isPath, isBelow⟩
  · have onTheWay : path <+: base := ⟨missing, isBase.symm⟩
    exact absurd absent (confined.present isRegion onTheWay locates)
  · by_cases nothingMore : more = []
    · have isBase : path <+: base := by simp [isPath, nothingMore]
      exact absurd absent (confined.present isRegion isBase locates)
    · have moreDescends : Descends more := fun component member =>
        descends component (isBelow ▸ List.mem_append_left _ member)
      exact confined.locates_inside isRegion ⟨more, nothingMore, moreDescends, isPath⟩ locates

/-- A new entry with an inode of its own leaves every other link as it was. -/
theorem symlinkAt_new {fs : FileSystem} {location other : Location} {number : Nat}
    {content : Inode} (unnamed : ∀ location, fs.node location ≠ some (.entry number))
    (different : other ≠ location) (target : Path) :
    ((fs.put location (.entry number)).store number content).SymlinkAt other target ↔
      fs.SymlinkAt other target := by
  unfold FileSystem.SymlinkAt
  rw [FileSystem.store_node, FileSystem.put_node_ne fs _ different]
  refine exists_congr fun entry => and_congr_right fun isEntry => ?_
  have notNew : entry ≠ number := by
    rintro rfl
    exact unnamed other isEntry
  rw [FileSystem.store_inode_ne _ _ notNew, FileSystem.put_inode]

/-- Rewriting a file leaves every link as it was. -/
theorem symlinkAt_store {fs : FileSystem} {file : Nat} {old new : List UInt8}
    (isFile : fs.inode file = .file old) (location : Location) (target : Path) :
    (fs.store file (.file new)).SymlinkAt location target ↔ fs.SymlinkAt location target := by
  unfold FileSystem.SymlinkAt
  rw [FileSystem.store_node]
  refine exists_congr fun entry => and_congr_right fun _ => ?_
  by_cases same : entry = file
  · subst same
    rw [FileSystem.store_inode_self, isFile]
    simp
  · rw [FileSystem.store_inode_ne _ _ same]

/-- What a confined change may do: nothing to directories and to links outside;
a link it makes leads down; it stays in the region. -/
theorem Confined.change {next : Disk} {action : Action} {location : Location}
    (confined : Confined before region disk) (inside : region <+: location)
    (directories : ∀ other, disk.fs.IsDirectory other → next.fs.IsDirectory other)
    (elsewhere : ∀ other target, other ≠ location →
      (next.fs.SymlinkAt other target ↔ disk.fs.SymlinkAt other target))
    (here : ∀ target, next.fs.SymlinkAt location target →
      disk.fs.SymlinkAt location target ∨ Descends target)
    (opened : ∀ file ∈ next.opened, file ∈ disk.opened ∨ file.2 = location)
    (performed : next.performed = disk.performed ++ [(action, location)]) :
    Confined before region next := by
  refine ⟨fun other isDirectory => directories other (confined.directories other isDirectory),
    fun other target isOutside link => ?_, fun other target isInside link => ?_,
    fun file member => ?_, fun change member => ?_⟩
  · have different : other ≠ location := by
      rintro rfl
      exact isOutside inside
    exact (elsewhere other target different).mpr (confined.outside other target isOutside link)
  · by_cases same : other = location
    · subst same
      rcases here target link with old | descends
      · exact confined.links other target isInside old
      · exact descends
    · exact confined.links other target isInside ((elsewhere other target same).mp link)
  · rcases opened file member with old | isNew
    · exact confined.opened file old
    · rwa [isNew]
  · rw [performed, List.mem_append, List.mem_singleton] at member
    rcases member with old | rfl
    · exact confined.performed change old
    · exact inside

/-- A new name is no directory's name. -/
theorem isDirectory_put {fs : FileSystem} {location other : Location} {node : Node}
    (absent : fs.node location = none) (isDirectory : fs.IsDirectory other) :
    (fs.put location node).IsDirectory other := by
  have different : other ≠ location := by
    rintro rfl
    rw [FileSystem.IsDirectory, absent] at isDirectory
    cases isDirectory
  rwa [FileSystem.IsDirectory, FileSystem.put_node_ne fs _ different]

/-- Making a new entry below the base keeps the process confined. -/
theorem Confined.new_entry {action : Action} {location : Location} {number : Nat}
    {content : Inode} {opened : List (Nat × Location)}
    (confined : Confined before region disk) (inside : region <+: location)
    (absent : disk.fs.node location = none) (fresh : disk.Fresh number)
    (descends : ∀ target, content = .symlink target → Descends target)
    (openedHere : ∀ file ∈ opened, file ∈ disk.opened ∨ file.2 = location) :
    Confined before region
      { fs := (disk.fs.put location (.entry number)).store number content
        opened := opened
        performed := disk.performed ++ [(action, location)] } := by
  refine confined.change inside (fun other isDirectory => isDirectory_put absent isDirectory)
    (fun other target different => symlinkAt_new fresh.unnamed different target)
    (fun target link => ?_) openedHere rfl
  obtain ⟨entry, isEntry, isTarget⟩ := link
  rw [FileSystem.store_node, FileSystem.put_node_self] at isEntry
  cases isEntry
  rw [FileSystem.store_inode_self] at isTarget
  exact .inr (descends target isTarget)

/-- Every permitted change keeps the process confined. -/
theorem Confined.performs (confined : Confined before region disk)
    (isRegion : Region before current base region) {action : Action} {location : Location}
    {next : Disk} (permitted : Permitted base action)
    (performs : Performs current disk action location next) : Confined before region next := by
  cases performs with
  | mkdir locates absent =>
      obtain ⟨below, descends, onTheWay⟩ := permitted
      have inside := confined.mkdir_inside isRegion descends onTheWay locates absent
      refine confined.change inside (fun other isDirectory => isDirectory_put absent isDirectory)
        (fun other target different => ?_) (fun target link => ?_) (fun _ old => .inl old) rfl
      · unfold FileSystem.SymlinkAt
        rw [FileSystem.put_node_ne _ _ different, FileSystem.put_inode]
      · have isDirectory : (disk.fs.put location .directory).IsDirectory location :=
          FileSystem.put_node_self ..
        exact absurd link isDirectory.not_symlink
  | create follows absent fresh =>
      obtain ⟨below, nonempty, descends, rfl⟩ := permitted
      have inside := confined.follows_inside isRegion descends follows
      refine confined.new_entry inside absent fresh nofun fun file member => ?_
      rcases List.mem_cons.mp member with rfl | old
      · exact .inr rfl
      · exact .inl old
  | truncate follows present isFile =>
      obtain ⟨below, nonempty, descends, rfl⟩ := permitted
      have inside := confined.follows_inside isRegion descends follows
      refine confined.change inside (fun _ isDirectory => isDirectory)
        (fun other target _ => symlinkAt_store isFile other target)
        (fun target link => .inl ((symlinkAt_store isFile _ target).mp link))
        (fun file member => ?_) rfl
      rcases List.mem_cons.mp member with rfl | old
      · exact .inr rfl
      · exact .inl old
  | createNew locates absent fresh =>
      have inside := confined.locates_inside isRegion permitted locates
      exact confined.new_entry inside absent fresh nofun fun _ old => .inl old
  | append opened isFile =>
      exact confined.change (confined.opened _ opened) (fun _ isDirectory => isDirectory)
        (fun other target _ => symlinkAt_store isFile other target)
        (fun target link => .inl ((symlinkAt_store isFile _ target).mp link))
        (fun _ old => .inl old) rfl
  | symlink locates absent fresh =>
      have inside := confined.locates_inside isRegion permitted.2 locates
      refine confined.new_entry inside absent fresh ?_ fun _ old => .inl old
      rintro _ ⟨⟩
      exact permitted.1
  | unlink locates present =>
      have inside := confined.locates_inside isRegion permitted locates
      refine confined.change inside (fun other isDirectory => ?_)
        (fun other target different => ?_) (fun target link => ?_) (fun _ old => .inl old) rfl
      · have different : other ≠ location := by
          rintro rfl
          rw [FileSystem.IsDirectory, present] at isDirectory
          cases isDirectory
        rwa [FileSystem.IsDirectory, FileSystem.remove_node_ne _ different]
      · unfold FileSystem.SymlinkAt
        rw [FileSystem.remove_node_ne _ different, FileSystem.remove_inode]
      · obtain ⟨entry, isEntry, _⟩ := link
        rw [FileSystem.remove_node_self] at isEntry
        cases isEntry
  | link => exact absurd permitted id

/-- A change that makes no link leaves none that was not there. -/
theorem Performs.symlinkAt_old {action : Action} {location : Location} {next : Disk}
    (performs : Performs current disk action location next)
    (noLink : ∀ path target, action ≠ .symlink target path)
    (noName : ∀ source path, action ≠ .link source path) {other : Location} {target : Path}
    (link : next.fs.SymlinkAt other target) : disk.fs.SymlinkAt other target := by
  have new_file : ∀ {number content}, (∀ location, disk.fs.node location ≠ some (.entry number)) →
      ((disk.fs.put location (.entry number)).store number (.file content)).SymlinkAt other target →
      disk.fs.SymlinkAt other target := by
    intro number content unnamed link
    by_cases same : other = location
    · subst same
      obtain ⟨entry, isEntry, isTarget⟩ := link
      rw [FileSystem.store_node, FileSystem.put_node_self] at isEntry
      cases isEntry
      rw [FileSystem.store_inode_self] at isTarget
      cases isTarget
    · exact (symlinkAt_new unnamed same target).mp link
  cases performs with
  | mkdir locates absent =>
      obtain ⟨number, isEntry, isTarget⟩ := link
      by_cases same : other = location
      · subst same
        rw [FileSystem.put_node_self] at isEntry
        cases isEntry
      · rw [FileSystem.put_node_ne _ _ same] at isEntry
        exact ⟨number, isEntry, isTarget⟩
  | create follows absent fresh => exact new_file fresh.unnamed link
  | truncate follows present isFile => exact (symlinkAt_store isFile _ _).mp link
  | createNew locates absent fresh => exact new_file fresh.unnamed link
  | append opened isFile => exact (symlinkAt_store isFile _ _).mp link
  | symlink locates absent fresh => exact absurd rfl (noLink _ _)
  | unlink locates present =>
      obtain ⟨number, isEntry, isTarget⟩ := link
      by_cases same : other = location
      · subst same
        rw [FileSystem.remove_node_self] at isEntry
        cases isEntry
      · rw [FileSystem.remove_node_ne _ same] at isEntry
        exact ⟨number, isEntry, isTarget⟩
  | link => exact absurd rfl (noName _ _)

/-- A process that has done nothing is confined. -/
theorem Confined.initial (isRegion : Region before current base region) :
    Confined before region { fs := before } :=
  ⟨fun _ isDirectory => isDirectory, fun _ _ _ link => link,
    fun location target inside link => absurd link (isRegion.noLinks location target inside),
    nofun, nofun⟩

end Unix
