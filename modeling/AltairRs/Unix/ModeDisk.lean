import Mathlib.Data.Nat.Bitwise
import AltairRs.Unix.PlainDisk

/-!
# A disk whose directories have modes

Every directory belongs to the user, who may look names up in it and make new ones as its
mode lets its owner. A call that is refused has done what it does on the disk without modes
for a front of its path; along a way on which nothing is refused it does exactly that.
-/

namespace Unix

/-- The mode of a new directory, under the usual umask. -/
def newDirectoryMode : Nat := 0o755

/-- The bit that lets the owner of a directory look names up in it. -/
def searchBit : Nat := 6

/-- The bit that lets the owner of a directory make names in it and take them away. -/
def writeBit : Nat := 7

/-- The owner may look names up, make them and take them away. -/
def OwnerMay (mode : Nat) : Prop :=
  mode.testBit searchBit = true ∧ mode.testBit writeBit = true

instance (mode : Nat) : Decidable (OwnerMay mode) := inferInstanceAs (Decidable (_ ∧ _))

/-- A disk without links, with the modes of its directories. Those of files are left out. -/
structure ModeDisk where
  plain : PlainDisk
  mode : Location → Nat

/-- The locations in which a path has a name looked up. -/
def lookups (current : Location) : Path → List Location
  | [] => []
  | .drive _ :: rest => lookups current rest
  | .rootDir :: rest => lookups [] rest
  | .curDir :: rest => current :: lookups current rest
  | .parentDir :: rest => current :: lookups current.dropLast rest
  | .normal name :: rest => current :: lookups (current ++ [name]) rest

/-- The location that a path leads to, if it leads anywhere. -/
def target (current : Location) : Path → Location
  | [] => current
  | .drive _ :: rest => target current rest
  | .rootDir :: rest => target [] rest
  | .curDir :: rest => target current rest
  | .parentDir :: rest => target current.dropLast rest
  | .normal name :: rest => target (current ++ [name]) rest

namespace ModeDisk

/-- If a directory stands there, its mode has the bit. -/
def Allows (disk : ModeDisk) (bit : Nat) (place : Location) : Prop :=
  disk.plain.node place = some .directory → (disk.mode place).testBit bit = true

instance (disk : ModeDisk) (bit : Nat) (place : Location) : Decidable (disk.Allows bit place) :=
  inferInstanceAs (Decidable (_ → _))

/-- Names may be looked up and made there. -/
def Open (disk : ModeDisk) (place : Location) : Prop :=
  disk.Allows searchBit place ∧ disk.Allows writeBit place

/-- Change the nodes where no directory stands or comes to stand. -/
def onPlain (disk : ModeDisk) (plain : PlainDisk) : ModeDisk := { disk with plain := plain }

/-- Make a directory. -/
def mkdir (disk : ModeDisk) (place : Location) : ModeDisk where
  plain := disk.plain.put place .directory
  mode := Function.update disk.mode place newDirectoryMode

/-- Set a mode. -/
def chmod (disk : ModeDisk) (place : Location) (mode : Nat) : ModeDisk :=
  { disk with mode := Function.update disk.mode place mode }

@[simp] theorem onPlain_plain (disk : ModeDisk) (plain : PlainDisk) :
    (disk.onPlain plain).plain = plain := rfl

@[simp] theorem mkdir_plain (disk : ModeDisk) (place : Location) :
    (disk.mkdir place).plain = disk.plain.put place .directory := rfl

@[simp] theorem mkdir_mode (disk : ModeDisk) (place : Location) :
    (disk.mkdir place).mode = Function.update disk.mode place newDirectoryMode := rfl

@[simp] theorem chmod_plain (disk : ModeDisk) (place : Location) (mode : Nat) :
    (disk.chmod place mode).plain = disk.plain := rfl

@[simp] theorem chmod_mode (disk : ModeDisk) (place : Location) (mode : Nat) :
    (disk.chmod place mode).mode = Function.update disk.mode place mode := rfl

/-- Follow a path through directories that may be searched. -/
def follow (disk : ModeDisk) (current : Location) : Path → Option Location
  | [] => some current
  | .drive _ :: _ => none
  | .rootDir :: rest => disk.follow [] rest
  | .curDir :: rest =>
      if disk.Allows searchBit current then disk.follow current rest else none
  | .parentDir :: rest =>
      if disk.Allows searchBit current then disk.follow current.dropLast rest else none
  | .normal name :: rest =>
      if disk.Allows searchBit current ∧ disk.plain.node (current ++ [name]) = some .directory then
        disk.follow (current ++ [name]) rest
      else
        none

/-- Make the directories of a path that are missing, up to something in the way or a directory
that refuses. -/
def makeDirs (disk : ModeDisk) (current : Location) : Path → Bool × ModeDisk
  | [] => (true, disk)
  | .drive _ :: _ => (false, disk)
  | .rootDir :: rest => disk.makeDirs [] rest
  | .curDir :: rest =>
      if disk.Allows searchBit current then disk.makeDirs current rest else (false, disk)
  | .parentDir :: rest =>
      if disk.Allows searchBit current then disk.makeDirs current.dropLast rest else (false, disk)
  | .normal name :: rest =>
      if disk.Allows searchBit current then
        match disk.plain.node (current ++ [name]) with
        | some .directory => disk.makeDirs (current ++ [name]) rest
        | some (.file _) => (false, disk)
        | none =>
            if disk.Allows writeBit current then
              (disk.mkdir (current ++ [name])).makeDirs (current ++ [name]) rest
            else
              (false, disk)
      else
        (false, disk)

/-- The location of a path whose last name may be missing. -/
def place (disk : ModeDisk) (current : Location) (path : Path) : Option Location :=
  match path.getLast? with
  | some (.normal name) =>
      ((disk.follow current path.dropLast).filter fun directory =>
        disk.Allows searchBit directory).map (· ++ [name])
  | _ => none

/-- A file stands there, empty, and is opened. -/
def openFile (disk : ModeDisk) (location : Location) : ModeDisk :=
  disk.onPlain { disk.plain.put location (.file []) with
    opened := disk.plain.opened ++ [location] }

/-- Open a file for writing: an old one emptied, or a new one in a directory that lets names
be made. -/
def create (disk : ModeDisk) (current : Location) (path : Path) : Option (Nat × ModeDisk) :=
  match disk.place current path with
  | none => none
  | some location =>
      match disk.plain.node location with
      | some .directory => none
      | some (.file _) => some (disk.plain.opened.length, disk.openFile location)
      | none =>
          if disk.Allows writeBit location.dropLast then
            some (disk.plain.opened.length, disk.openFile location)
          else
            none

end ModeDisk

section Ways

/-- The second part of a path goes on where the first leads. -/
theorem lookups_append (current : Location) (path rest : Path) :
    lookups current (path ++ rest) =
      lookups current path ++ lookups (target current path) rest := by
  induction path generalizing current with
  | nil => rfl
  | cons component path ih =>
      cases component with
      | drive name => exact ih current
      | rootDir => exact ih []
      | curDir => exact congrArg (current :: ·) (ih current)
      | parentDir => exact congrArg (current :: ·) (ih current.dropLast)
      | normal name => exact congrArg (current :: ·) (ih (current ++ [name]))

/-- A path of names looks them up in what stands above them. -/
theorem mem_lookups_names {location place : Location} {names : List String}
    (member : place ∈ lookups location (names.map .normal)) :
    ∃ above name rest, names = above ++ name :: rest ∧ place = location ++ above := by
  induction names generalizing location with
  | nil => cases member
  | cons first names ih =>
      rcases List.mem_cons.mp member with rfl | later
      · exact ⟨[], first, names, rfl, (List.append_nil _).symm⟩
      · obtain ⟨above, name, rest, rfl, rfl⟩ := ih later
        exact ⟨first :: above, name, rest, rfl, List.append_cons .. ▸ rfl⟩

/-- A path that is followed leads to its target. -/
theorem PlainDisk.follow_eq_target {disk : PlainDisk} {current location : Location} {path : Path}
    (follows : disk.follow current path = some location) : location = target current path := by
  induction path generalizing current with
  | nil => exact (Option.some_inj.mp follows).symm
  | cons component path ih =>
      cases component with
      | drive name => cases follows
      | rootDir | curDir | parentDir => exact ih follows
      | normal name =>
          rw [PlainDisk.follow] at follows
          split_ifs at follows
          exact ih follows

end Ways

namespace ModeDisk

variable {disk : ModeDisk} {current location directory : Location} {path : Path} {bit : Nat}

/-- A new directory lets its owner do everything. -/
theorem mkdir_allows (place : Location) (isGiven : newDirectoryMode.testBit bit = true)
    {other : Location} (allows : disk.Allows bit other) : (disk.mkdir place).Allows bit other := by
  intro isDirectory
  by_cases same : other = place
  · subst same
    rwa [mkdir_mode, Function.update_self]
  · rw [mkdir_plain, PlainDisk.put_node_ne _ _ same] at isDirectory
    rw [mkdir_mode, Function.update_of_ne same]
    exact allows isDirectory

/-- Nobody is refused what was allowed, where a new directory allows it. -/
def Keeps (disk next : ModeDisk) : Prop :=
  ∀ bit, newDirectoryMode.testBit bit = true → ∀ place, disk.Allows bit place →
    next.Allows bit place

/-- A new directory refuses nobody. -/
theorem Keeps.mkdir (disk : ModeDisk) (place : Location) : disk.Keeps (disk.mkdir place) :=
  fun _ isGiven _ allows => mkdir_allows place isGiven allows

/-- Files may come and go. -/
theorem Keeps.onPlain {plain : PlainDisk} (noneNew : ∀ place,
    plain.node place = some .directory → disk.plain.node place = some .directory) :
    disk.Keeps (disk.onPlain plain) :=
  fun _ _ place allows isDirectory => allows (noneNew place isDirectory)

/-- A file that is put somewhere is no new directory. -/
theorem Keeps.putFile (disk : ModeDisk) (place : Location) (content : List UInt8)
    (opened : List Location) : disk.Keeps (disk.onPlain
      { disk.plain.put place (.file content) with opened := opened }) := by
  refine Keeps.onPlain fun other isDirectory => ?_
  by_cases same : other = place
  · subst same
    cases (PlainDisk.put_node_self ..).symm.trans isDirectory
  · exact (PlainDisk.put_node_ne _ _ same).symm.trans isDirectory

/-- Other modes stay. -/
theorem chmod_allows_of_ne {place other : Location} (different : other ≠ place) (mode : Nat)
    (allows : disk.Allows bit other) : (disk.chmod place mode).Allows bit other := by
  intro isDirectory
  rw [chmod_mode, Function.update_of_ne different]
  exact allows isDirectory

/-- The new mode is that of the place. -/
theorem chmod_allows_self {place : Location} {mode : Nat} (isGiven : mode.testBit bit = true) :
    (disk.chmod place mode).Allows bit place := by
  intro _
  rwa [chmod_mode, Function.update_self]

/-- Whatever is followed is followed without the modes. -/
theorem plain_follow (follows : disk.follow current path = some location) :
    disk.plain.follow current path = some location := by
  induction path generalizing current with
  | nil => exact follows
  | cons component path ih =>
      cases component with
      | drive name => cases follows
      | rootDir => exact ih follows
      | curDir | parentDir =>
          rw [follow] at follows
          split_ifs at follows
          exact ih follows
      | normal name =>
          rw [follow] at follows
          split_ifs at follows with isOpen
          rw [PlainDisk.follow, if_pos isOpen.2]
          exact ih follows

/-- Where everything may be looked up, the modes do not matter. -/
theorem follow_eq_plain (way : ∀ place ∈ lookups current path, disk.Allows searchBit place) :
    disk.follow current path = disk.plain.follow current path := by
  induction path generalizing current with
  | nil => rfl
  | cons component path ih =>
      cases component with
      | drive name => rfl
      | rootDir => exact ih way
      | curDir | parentDir =>
          obtain ⟨here, later⟩ := List.forall_mem_cons.mp way
          rw [follow, if_pos here]
          exact ih later
      | normal name =>
          obtain ⟨here, later⟩ := List.forall_mem_cons.mp way
          rw [follow, PlainDisk.follow, ih later]
          simp only [here, true_and]

/-- Whatever has a place has it without the modes. -/
theorem plain_place (isPlace : disk.place current path = some location) :
    disk.plain.place current path = some location := by
  unfold place at isPlace
  split at isPlace
  · next name isLast =>
      obtain ⟨directory, isHere, rfl⟩ := Option.map_eq_some_iff.mp isPlace
      rw [PlainDisk.place, isLast, plain_follow (Option.eq_some_of_filter_eq_some isHere)]
      rfl
  · cases isPlace

/-- What is opened has its place, where no directory stands. -/
theorem create_eq_some {file : Nat} {created : ModeDisk}
    (isCreated : disk.create current path = some (file, created)) :
    ∃ location, disk.place current path = some location ∧
      disk.plain.node location ≠ some .directory ∧ file = disk.plain.opened.length ∧
      created = disk.openFile location := by
  unfold create at isCreated
  split at isCreated
  · cases isCreated
  · next location isPlace =>
      refine ⟨location, isPlace, ?_⟩
      split at isCreated
      · cases isCreated
      · next isFile =>
          obtain ⟨rfl, rfl⟩ := Prod.mk.inj (Option.some_inj.mp isCreated)
          exact ⟨by rw [isFile]; nofun, rfl, rfl⟩
      · next isNone =>
          split_ifs at isCreated
          obtain ⟨rfl, rfl⟩ := Prod.mk.inj (Option.some_inj.mp isCreated)
          exact ⟨by rw [isNone]; nofun, rfl, rfl⟩

/-- Directories that can be followed are not made. -/
theorem makeDirs_of_follow (follows : disk.follow current path = some location) (rest : Path) :
    disk.makeDirs current (path ++ rest) = disk.makeDirs location rest := by
  induction path generalizing current with
  | nil =>
      cases follows
      rfl
  | cons component path ih =>
      cases component with
      | drive name => cases follows
      | rootDir => exact ih follows
      | curDir | parentDir =>
          rw [follow] at follows
          split_ifs at follows with isOpen
          rw [List.cons_append, makeDirs, if_pos isOpen]
          exact ih follows
      | normal name =>
          rw [follow] at follows
          split_ifs at follows with isOpen
          rw [List.cons_append, makeDirs, if_pos isOpen.1, isOpen.2]
          exact ih follows

/-- Where everything may be looked up and made, the modes do not matter. -/
theorem makeDirs_eq_plain (way : ∀ place ∈ lookups current path, disk.Open place) :
    (disk.makeDirs current path).1 = (disk.plain.makeDirs current path).1 ∧
      (disk.makeDirs current path).2.plain = (disk.plain.makeDirs current path).2 := by
  induction path generalizing disk current with
  | nil => exact ⟨rfl, rfl⟩
  | cons component path ih =>
      cases component with
      | drive name => exact ⟨rfl, rfl⟩
      | rootDir => exact ih way
      | curDir | parentDir =>
          obtain ⟨here, later⟩ := List.forall_mem_cons.mp way
          rw [makeDirs, if_pos here.1]
          exact ih later
      | normal name =>
          obtain ⟨here, later⟩ := List.forall_mem_cons.mp way
          rw [makeDirs, if_pos here.1, PlainDisk.makeDirs]
          cases disk.plain.node (current ++ [name]) with
          | none =>
              simp only [if_pos here.2]
              exact ih fun place member => ⟨mkdir_allows _ (by decide) (later place member).1,
                mkdir_allows _ (by decide) (later place member).2⟩
          | some node =>
              cases node with
              | directory => exact ih later
              | file content => exact ⟨rfl, rfl⟩

/-- If nothing refuses, everything is made. -/
theorem makeDirs_plain_of_ok {made : ModeDisk}
    (isMade : disk.makeDirs current path = (true, made)) :
    disk.plain.makeDirs current path = (true, made.plain) := by
  induction path generalizing disk current with
  | nil => exact congrArg (Prod.mk true ∘ ModeDisk.plain) (Prod.mk.inj isMade).2
  | cons component path ih =>
      cases component with
      | drive name => cases isMade
      | rootDir => exact ih isMade
      | curDir | parentDir =>
          rw [makeDirs] at isMade
          split_ifs at isMade
          · exact ih isMade
          · cases isMade
      | normal name =>
          rw [makeDirs] at isMade
          by_cases isOpen : disk.Allows searchBit current
          · rw [if_pos isOpen] at isMade
            rw [PlainDisk.makeDirs]
            cases isNode : disk.plain.node (current ++ [name]) with
            | none =>
                simp only [isNode] at isMade
                by_cases isWritable : disk.Allows writeBit current
                · rw [if_pos isWritable] at isMade
                  exact ih isMade
                · rw [if_neg isWritable] at isMade
                  cases isMade
            | some node =>
                simp only [isNode] at isMade
                cases node with
                | directory => exact ih isMade
                | file content => cases isMade
          · rw [if_neg isOpen] at isMade
            cases isMade

/-- What is made are the directories of a front of the path. -/
theorem makeDirs_plain (disk : ModeDisk) (current : Location) (path : Path) :
    ∃ front, front <+: path ∧
      (disk.makeDirs current path).2.plain = (disk.plain.makeDirs current front).2 := by
  induction path generalizing disk current with
  | nil => exact ⟨[], List.nil_prefix, rfl⟩
  | cons component path ih =>
      have nothing : ∃ front, front <+: component :: path ∧
          disk.plain = (disk.plain.makeDirs current front).2 := ⟨[], List.nil_prefix, rfl⟩
      have onward {component : Component} {made : ModeDisk} {here : Location}
          {before : PlainDisk}
          (goesOn : ∀ front, (before.makeDirs current (component :: front)).2 =
            (made.plain.makeDirs here front).2) :
          ∃ front, front <+: component :: path ∧
            (made.makeDirs here path).2.plain = (before.makeDirs current front).2 := by
        obtain ⟨front, isFront, isMade⟩ := ih made here
        exact ⟨component :: front, (List.prefix_cons_inj _).mpr isFront,
          isMade.trans (goesOn front).symm⟩
      cases component with
      | drive name => exact nothing
      | rootDir => exact onward fun _ => rfl
      | curDir | parentDir =>
          rw [makeDirs]
          split_ifs
          · exact onward fun _ => rfl
          · exact nothing
      | normal name =>
          by_cases isOpen : disk.Allows searchBit current
          · rw [makeDirs, if_pos isOpen]
            cases isNode : disk.plain.node (current ++ [name]) with
            | none =>
                by_cases isWritable : disk.Allows writeBit current
                · simp only [if_pos isWritable]
                  exact onward fun front => by rw [PlainDisk.makeDirs, isNode]; rfl
                · simp only [if_neg isWritable]
                  exact nothing
            | some node =>
                cases node with
                | directory => exact onward fun front => by rw [PlainDisk.makeDirs, isNode]
                | file content => exact nothing
          · rw [makeDirs, if_neg isOpen]
            exact nothing

/-- Making directories takes nothing away from anyone. -/
theorem Keeps.makeDirs (disk : ModeDisk) (current : Location) (path : Path) :
    disk.Keeps (disk.makeDirs current path).2 := by
  intro bit isGiven other allows
  induction path generalizing disk current with
  | nil => exact allows
  | cons component path ih =>
      cases component with
      | drive name => exact allows
      | rootDir => exact ih _ _ allows
      | curDir | parentDir =>
          rw [ModeDisk.makeDirs]
          split_ifs
          · exact ih _ _ allows
          · exact allows
      | normal name =>
          by_cases isOpen : disk.Allows searchBit current
          · rw [ModeDisk.makeDirs, if_pos isOpen]
            cases disk.plain.node (current ++ [name]) with
            | none =>
                by_cases isWritable : disk.Allows writeBit current
                · simp only [if_pos isWritable]
                  exact ih _ _ (mkdir_allows _ isGiven allows)
                · simp only [if_neg isWritable]
                  exact allows
            | some node =>
                cases node with
                | directory => exact ih _ _ allows
                | file content => exact allows
          · rw [ModeDisk.makeDirs, if_neg isOpen]
            exact allows

end ModeDisk

end Unix
