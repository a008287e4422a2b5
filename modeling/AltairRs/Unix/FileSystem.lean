import Mathlib.Algebra.GroupWithZero.Nat
import Mathlib.Data.List.DropRight
import Mathlib.Logic.Function.Basic

/-!
# A Unix file system

Directories are names in a tree; every other name is an entry that refers to an
inode, so that two names may share one. Paths are followed component by
component through symbolic links, which may lead anywhere. `Performs` is the
relation of one successful call: the real location it creates or writes, and
the disk it leaves.
-/

namespace Unix

/-- A component of a path. Drives occur on no Unix path. -/
inductive Component where
  | drive (name : String)
  | rootDir
  | curDir
  | parentDir
  | normal (name : String)
deriving DecidableEq, Repr

/-- A path, as the list of its components. -/
abbrev Path := List Component

/-- Append a path to a base, unless it is absolute. An empty path leaves a
trailing separator, which names the base as a directory. -/
def join (base : Path) : Path → Path
  | [] => base ++ [.curDir]
  | .rootDir :: rest => .rootDir :: rest
  | .drive name :: rest => .drive name :: rest
  | first :: rest => base ++ first :: rest

/-- The path without its last name; roots have no parent. A trailing `.` is no
name, unless the path starts with it. -/
def parent : Path → Option Path
  | [] => none
  | first :: rest =>
      let named := first :: rest.rdropWhile (· = .curDir)
      match named.getLast? with
      | none | some .rootDir | some (.drive _) => none
      | some _ => some named.dropLast

/-- The parent is a front of its path. -/
theorem parent_prefix {path above : Path} (isParent : parent path = some above) :
    above <+: path := by
  cases path with
  | nil => cases isParent
  | cons first rest =>
      have trimmed : first :: rest.rdropWhile (· = .curDir) <+: first :: rest :=
        (List.prefix_cons_inj first).mpr (List.rdropWhile_prefix _ rest)
      unfold parent at isParent
      simp only at isParent
      split at isParent
      · cases isParent
      · cases isParent
      · cases isParent
      · cases isParent
        exact (List.dropLast_prefix _).trans trimmed

/-- The parent of a path that ends in a name is the path without it. -/
theorem parent_concat_normal (path : Path) (name : String) :
    parent (path ++ [.normal name]) = some path := by
  cases path with
  | nil => rfl
  | cons first rest =>
      have kept : (rest ++ [Component.normal name]).rdropWhile (· = Component.curDir) =
          rest ++ [Component.normal name] := List.rdropWhile_concat_neg _ _ _ (by simp)
      rw [List.cons_append, parent, kept, ← List.cons_append, List.getLast?_concat,
        List.dropLast_concat]

/-- A component that leads nowhere but down. -/
def Component.Descends : Component → Prop
  | .curDir | .normal _ => True
  | .drive _ | .rootDir | .parentDir => False

instance : DecidablePred Component.Descends := fun component => by
  cases component <;> unfold Component.Descends <;> infer_instance

/-- A relative path without `..`. -/
abbrev Descends (path : Path) : Prop := ∀ component ∈ path, component.Descends

/-- A real location: the names from the root down, no link among them. -/
abbrev Location := List String

/-- What a name stands for. -/
inductive Node where
  | directory
  | entry (inode : Nat)
deriving DecidableEq, Repr

/-- What an inode holds. -/
inductive Inode where
  | file (content : List UInt8)
  | symlink (target : Path)
deriving DecidableEq, Repr

/-- The names and the inodes. -/
structure FileSystem where
  node : Location → Option Node
  inode : Nat → Inode

namespace FileSystem

/-- Give a location a node. -/
def put (fs : FileSystem) (location : Location) (node : Node) : FileSystem :=
  { fs with node := Function.update fs.node location (some node) }

/-- Take a name away. -/
def remove (fs : FileSystem) (location : Location) : FileSystem :=
  { fs with node := Function.update fs.node location none }

/-- Change what an inode holds. -/
def store (fs : FileSystem) (number : Nat) (content : Inode) : FileSystem :=
  { fs with inode := Function.update fs.inode number content }

@[simp] theorem put_node_self (fs : FileSystem) (location : Location) (node : Node) :
    (fs.put location node).node location = some node := by simp [put]

/-- Other nodes stay. -/
theorem put_node_ne (fs : FileSystem) {location other : Location} (node : Node)
    (different : other ≠ location) : (fs.put location node).node other = fs.node other := by
  simp [put, different]

@[simp] theorem put_inode (fs : FileSystem) (location : Location) (node : Node) :
    (fs.put location node).inode = fs.inode := rfl

@[simp] theorem remove_node_self (fs : FileSystem) (location : Location) :
    (fs.remove location).node location = none := by simp [remove]

/-- So they do when one is removed. -/
theorem remove_node_ne (fs : FileSystem) {location other : Location}
    (different : other ≠ location) : (fs.remove location).node other = fs.node other := by
  simp [remove, different]

@[simp] theorem remove_inode (fs : FileSystem) (location : Location) :
    (fs.remove location).inode = fs.inode := rfl

@[simp] theorem store_node (fs : FileSystem) (number : Nat) (content : Inode) :
    (fs.store number content).node = fs.node := rfl

@[simp] theorem store_inode_self (fs : FileSystem) (number : Nat) (content : Inode) :
    (fs.store number content).inode number = content := by simp [store]

/-- Other inodes stay. -/
theorem store_inode_ne (fs : FileSystem) {number other : Nat} (content : Inode)
    (different : other ≠ number) : (fs.store number content).inode other = fs.inode other := by
  simp [store, different]

/-- A directory stands at the location. -/
abbrev IsDirectory (fs : FileSystem) (location : Location) : Prop :=
  fs.node location = some .directory

/-- A symbolic link stands at the location. -/
def SymlinkAt (fs : FileSystem) (location : Location) (target : Path) : Prop :=
  ∃ number, fs.node location = some (.entry number) ∧ fs.inode number = .symlink target

/-- What an entry holds, if there is one at the location. -/
def contentAt (fs : FileSystem) (location : Location) : Option Inode :=
  match fs.node location with
  | some (.entry number) => some (fs.inode number)
  | _ => none

end FileSystem

/-- Following a path from a directory, links included, to a real location. Only
the last name may be missing. -/
inductive Follows (fs : FileSystem) : Location → Path → Location → Prop where
  | here {current} : Follows fs current [] current
  | rootDir {current rest location} (next : Follows fs [] rest location) :
      Follows fs current (.rootDir :: rest) location
  | curDir {current rest location} (next : Follows fs current rest location) :
      Follows fs current (.curDir :: rest) location
  | parentDir {current rest location} (next : Follows fs current.dropLast rest location) :
      Follows fs current (.parentDir :: rest) location
  | directory {current name rest location} (isDirectory : fs.IsDirectory (current ++ [name]))
      (next : Follows fs (current ++ [name]) rest location) :
      Follows fs current (.normal name :: rest) location
  | symlink {current name target rest location} (link : fs.SymlinkAt (current ++ [name]) target)
      (next : Follows fs current (target ++ rest) location) :
      Follows fs current (.normal name :: rest) location
  | last {current name} (notDirectory : ¬ fs.IsDirectory (current ++ [name]))
      (notLink : ∀ target, ¬ fs.SymlinkAt (current ++ [name]) target) :
      Follows fs current [.normal name] (current ++ [name])

/-- The location a path names when its last name is not followed. -/
def Locates (fs : FileSystem) (current : Location) (path : Path) (location : Location) : Prop :=
  ∃ front directory name, path = front ++ [.normal name] ∧ Follows fs current front directory ∧
    fs.IsDirectory directory ∧ location = directory ++ [name]

/-- A successful change of the file system. -/
inductive Action where
  | mkdir (path : Path)
  | create (path : Path) (file : Nat)
  | truncate (path : Path) (file : Nat)
  | createNew (path : Path) (content : List UInt8)
  | append (file : Nat) (bytes : List UInt8)
  | symlink (target path : Path)
  | unlink (path : Path)
  | link (source path : Path)
deriving DecidableEq, Repr

/-- The file bytes a change writes. -/
def Action.bytes : Action → Nat
  | .createNew _ content => content.length
  | .append _ bytes => bytes.length
  | .mkdir _ | .create .. | .truncate .. | .symlink .. | .unlink _ | .link .. => 0

/-- The file system, the files a process has opened and where, and the changes it
made, each with its real location. -/
structure Disk where
  fs : FileSystem
  opened : List (Nat × Location) := []
  performed : List (Action × Location) := []

/-- The file bytes written so far. -/
def Disk.written (disk : Disk) : Nat := (disk.performed.map fun change => change.1.bytes).sum

/-- An inode no name and no open file refers to. -/
structure Disk.Fresh (disk : Disk) (number : Nat) : Prop where
  unnamed : ∀ location, disk.fs.node location ≠ some (.entry number)
  unopened : ∀ file ∈ disk.opened, file.1 ≠ number

/-- One successful change from a working directory. -/
inductive Performs (current : Location) (disk : Disk) : Action → Location → Disk → Prop where
  | mkdir {path location} (locates : Locates disk.fs current path location)
      (absent : disk.fs.node location = none) :
      Performs current disk (.mkdir path) location
        { disk with
          fs := disk.fs.put location .directory
          performed := disk.performed ++ [(.mkdir path, location)] }
  | create {path location file} (follows : Follows disk.fs current path location)
      (absent : disk.fs.node location = none) (fresh : disk.Fresh file) :
      Performs current disk (.create path file) location
        { fs := (disk.fs.put location (.entry file)).store file (.file [])
          opened := (file, location) :: disk.opened
          performed := disk.performed ++ [(.create path file, location)] }
  | truncate {path location file content} (follows : Follows disk.fs current path location)
      (present : disk.fs.node location = some (.entry file))
      (isFile : disk.fs.inode file = .file content) :
      Performs current disk (.truncate path file) location
        { fs := disk.fs.store file (.file [])
          opened := (file, location) :: disk.opened
          performed := disk.performed ++ [(.truncate path file, location)] }
  | createNew {path location number content} (locates : Locates disk.fs current path location)
      (absent : disk.fs.node location = none) (fresh : disk.Fresh number) :
      Performs current disk (.createNew path content) location
        { disk with
          fs := (disk.fs.put location (.entry number)).store number (.file content)
          performed := disk.performed ++ [(.createNew path content, location)] }
  | append {file location content bytes} (opened : (file, location) ∈ disk.opened)
      (isFile : disk.fs.inode file = .file content) :
      Performs current disk (.append file bytes) location
        { disk with
          fs := disk.fs.store file (.file (content ++ bytes))
          performed := disk.performed ++ [(.append file bytes, location)] }
  | symlink {path location number target} (locates : Locates disk.fs current path location)
      (absent : disk.fs.node location = none) (fresh : disk.Fresh number) :
      Performs current disk (.symlink target path) location
        { disk with
          fs := (disk.fs.put location (.entry number)).store number (.symlink target)
          performed := disk.performed ++ [(.symlink target path, location)] }
  | unlink {path location number} (locates : Locates disk.fs current path location)
      (present : disk.fs.node location = some (.entry number)) :
      Performs current disk (.unlink path) location
        { disk with
          fs := disk.fs.remove location
          performed := disk.performed ++ [(.unlink path, location)] }
  | link {source path from_ location number} (sourceLocates : Locates disk.fs current source from_)
      (sourcePresent : disk.fs.node from_ = some (.entry number))
      (locates : Locates disk.fs current path location)
      (absent : disk.fs.node location = none) :
      Performs current disk (.link source path) location
        { disk with
          fs := disk.fs.put location (.entry number)
          performed := disk.performed ++ [(.link source path, location)] }

/-- Successive changes. -/
inductive PerformsAll (current : Location) : Disk → List Action → Disk → Prop where
  | nil {disk} : PerformsAll current disk [] disk
  | cons {disk action location middle actions final}
      (first : Performs current disk action location middle)
      (rest : PerformsAll current middle actions final) :
      PerformsAll current disk (action :: actions) final

/-- A change writes its bytes. -/
theorem Performs.written_eq {current location : Location} {disk next : Disk} {action : Action}
    (performs : Performs current disk action location next) :
    next.written = disk.written + action.bytes := by
  have isSum : next.performed = disk.performed ++ [(action, location)] := by
    cases performs <;> rfl
  simp [Disk.written, isSum]

/-- Changes write their bytes together. -/
theorem PerformsAll.written_eq {current : Location} {disk final : Disk} {actions : List Action}
    (performs : PerformsAll current disk actions final) :
    final.written = disk.written + (actions.map Action.bytes).sum := by
  induction performs with
  | nil => rfl
  | cons first _ ih =>
      rw [ih, first.written_eq, List.map_cons, List.sum_cons, Nat.add_assoc]

/-- One change alone. -/
theorem PerformsAll.of_singleton {current : Location} {disk final : Disk} {action : Action}
    (performs : PerformsAll current disk [action] final) :
    ∃ location, Performs current disk action location final := by
  cases performs with
  | cons first rest =>
      cases rest
      exact ⟨_, first⟩

/-- What every permitted change preserves is preserved by all of them. -/
theorem PerformsAll.preserves {current : Location} {invariant : Disk → Prop}
    {permitted : Action → Prop}
    (step : ∀ disk action location next, permitted action → invariant disk →
      Performs current disk action location next → invariant next)
    {disk final : Disk} {actions : List Action} (performs : PerformsAll current disk actions final)
    (all : ∀ action ∈ actions, permitted action) (start : invariant disk) : invariant final := by
  induction performs with
  | nil => exact start
  | cons first _ ih =>
      obtain ⟨now, later⟩ := List.forall_mem_cons.mp all
      exact ih later (step _ _ _ _ now start first)

end Unix
