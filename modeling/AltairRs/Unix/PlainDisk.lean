import AltairRs.Unix.FileSystem

/-!
# A disk without links

Directories and files in a tree, without links, permissions or a size: a call
fails only where a directory is missing or something is in the way. What the
calls do is computed, and of each one a lemma says what it does where it
succeeds.
-/

namespace Unix

/-- What stands at a location. -/
inductive PlainNode where
  | directory
  | file (content : List UInt8)
deriving DecidableEq, Repr

/-- The nodes, and the locations of the files that were opened, by handle. -/
structure PlainDisk where
  node : Location → Option PlainNode
  opened : List Location := []

namespace PlainDisk

/-- Give a location a node. -/
def put (disk : PlainDisk) (location : Location) (node : PlainNode) : PlainDisk :=
  { disk with node := Function.update disk.node location (some node) }

@[simp] theorem put_opened (disk : PlainDisk) (location : Location) (node : PlainNode) :
    (disk.put location node).opened = disk.opened := rfl

@[simp] theorem put_node_self (disk : PlainDisk) (location : Location) (node : PlainNode) :
    (disk.put location node).node location = some node := Function.update_self ..

/-- Other nodes stay. -/
theorem put_node_ne (disk : PlainDisk) {location other : Location} (node : PlainNode)
    (different : other ≠ location) : (disk.put location node).node other = disk.node other :=
  Function.update_of_ne different ..

/-- Follow a path through directories. -/
def follow (disk : PlainDisk) (current : Location) : Path → Option Location
  | [] => some current
  | .drive _ :: _ => none
  | .rootDir :: rest => disk.follow [] rest
  | .curDir :: rest => disk.follow current rest
  | .parentDir :: rest => disk.follow current.dropLast rest
  | .normal name :: rest =>
      if disk.node (current ++ [name]) = some .directory then
        disk.follow (current ++ [name]) rest
      else
        none

/-- Make the directories of a path that are missing, up to something in the way. -/
def makeDirs (disk : PlainDisk) (current : Location) : Path → Bool × PlainDisk
  | [] => (true, disk)
  | .drive _ :: _ => (false, disk)
  | .rootDir :: rest => disk.makeDirs [] rest
  | .curDir :: rest => disk.makeDirs current rest
  | .parentDir :: rest => disk.makeDirs current.dropLast rest
  | .normal name :: rest =>
      match disk.node (current ++ [name]) with
      | some .directory => disk.makeDirs (current ++ [name]) rest
      | some (.file _) => (false, disk)
      | none => (disk.put (current ++ [name]) .directory).makeDirs (current ++ [name]) rest

/-- The location of a path whose last name may be missing. -/
def place (disk : PlainDisk) (current : Location) (path : Path) : Option Location :=
  match path.getLast? with
  | some (.normal name) => (disk.follow current path.dropLast).map (· ++ [name])
  | _ => none

/-- Open a file for writing: a new one, or an old one emptied. -/
def create (disk : PlainDisk) (current : Location) (path : Path) : Option (Nat × PlainDisk) :=
  match disk.place current path with
  | none => none
  | some location =>
      if disk.node location = some .directory then none
      else
        some (disk.opened.length,
          { disk.put location (.file []) with opened := disk.opened ++ [location] })

/-- Write to the end of an opened file. -/
def append (disk : PlainDisk) (file : Nat) (bytes : List UInt8) : Option PlainDisk :=
  match disk.opened[file]? with
  | none => none
  | some location =>
      match disk.node location with
      | some (.file content) => some (disk.put location (.file (content ++ bytes)))
      | _ => none

variable {disk : PlainDisk} {current directory location : Location} {path : Path}

/-- A path is followed part by part. -/
theorem follow_append (disk : PlainDisk) (current : Location) (path rest : Path) :
    disk.follow current (path ++ rest) =
      (disk.follow current path).bind fun location => disk.follow location rest := by
  induction path generalizing current with
  | nil => rfl
  | cons component path ih =>
      cases component with
      | drive name => rfl
      | rootDir => exact ih []
      | curDir => exact ih current
      | parentDir => exact ih current.dropLast
      | normal name =>
          rw [List.cons_append, follow, follow]
          split
          · exact ih (current ++ [name])
          · rfl

/-- Directories that stay are followed as before. -/
theorem follow_of_directories {other : PlainDisk}
    (follows : disk.follow current path = some location)
    (stays : ∀ here, disk.node here = some .directory → other.node here = some .directory) :
    other.follow current path = some location := by
  induction path generalizing current with
  | nil => exact follows
  | cons component path ih =>
      cases component with
      | drive name => cases follows
      | rootDir | curDir | parentDir => exact ih follows
      | normal name =>
          rw [follow] at follows ⊢
          split at follows
          · rw [if_pos (stays _ ‹_›)]
            exact ih follows
          · cases follows

/-- Where a path is followed, no directory is missing. -/
theorem makeDirs_of_follow (follows : disk.follow current path = some location) (rest : Path) :
    disk.makeDirs current (path ++ rest) = disk.makeDirs location rest := by
  induction path generalizing current with
  | nil =>
      cases follows
      rfl
  | cons component path ih =>
      cases component with
      | drive name => cases follows
      | rootDir | curDir | parentDir => exact ih follows
      | normal name =>
          rw [follow] at follows
          split at follows
          · rename_i isDirectory
            rw [List.cons_append, makeDirs, isDirectory]
            exact ih follows
          · cases follows

/-- A path that is there stays as it is. -/
theorem makeDirs_present (follows : disk.follow current path = some location) :
    disk.makeDirs current path = (true, disk) := by
  have made := makeDirs_of_follow follows []
  rwa [List.append_nil] at made

/-- One missing directory is made. -/
theorem makeDirs_missing (follows : disk.follow current path = some directory) {name : String}
    (absent : disk.node (directory ++ [name]) = none) :
    disk.makeDirs current (path ++ [.normal name]) =
      (true, disk.put (directory ++ [name]) .directory) := by
  rw [makeDirs_of_follow follows, makeDirs, absent]
  rfl

/-- Directories stay when others are made. -/
theorem makeDirs_directories (isDirectory : disk.node location = some .directory) :
    (disk.makeDirs current path).2.node location = some .directory := by
  induction path generalizing disk current with
  | nil => exact isDirectory
  | cons component path ih =>
      cases component with
      | drive name => exact isDirectory
      | rootDir | curDir | parentDir => exact ih isDirectory
      | normal name =>
          rw [makeDirs]
          cases isNode : disk.node (current ++ [name]) with
          | none =>
              refine ih ?_
              have different : location ≠ current ++ [name] := by
                rintro rfl
                cases isNode.symm.trans isDirectory
              rwa [put_node_ne _ _ different]
          | some node =>
              cases node with
              | directory => exact ih isDirectory
              | file content => exact isDirectory

/-- A file is created where nothing stands. -/
theorem create_missing (follows : disk.follow current path = some directory) {name : String}
    (absent : disk.node (directory ++ [name]) = none) :
    disk.create current (path ++ [.normal name]) =
      some (disk.opened.length,
        { disk.put (directory ++ [name]) (.file []) with
          opened := disk.opened ++ [directory ++ [name]] }) := by
  have isPlace : disk.place current (path ++ [.normal name]) = some (directory ++ [name]) := by
    rw [place, List.getLast?_concat, List.dropLast_concat, follows]
    rfl
  simp [create, isPlace, absent]

/-- A file that is written to was one before, and no directory changes. -/
theorem append_directories {file : Nat} {bytes : List UInt8} {written : PlainDisk}
    (appended : disk.append file bytes = some written) (place : Location) :
    written.node place = some .directory ↔ disk.node place = some .directory := by
  unfold append at appended
  split at appended
  · cases appended
  · next location isOpened =>
      split at appended
      · next content isFile =>
          obtain rfl := Option.some_inj.mp appended
          by_cases same : place = location
          · subst same
            rw [put_node_self, isFile]
            exact ⟨nofun, nofun⟩
          · rw [put_node_ne _ _ same]
      · cases appended

/-- What is written goes to the file that was opened last. -/
theorem append_last (isFile : disk.node location = some (.file [])) (bytes : List UInt8)
    {opened : List Location} (isOpened : disk.opened = opened ++ [location]) :
    disk.append opened.length bytes = some (disk.put location (.file bytes)) := by
  simp [append, isOpened, isFile]

end PlainDisk

end Unix
