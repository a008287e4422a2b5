import AltairRs.Unix.FileSystem

/-!
# Inodes shared across a boundary

Two names may refer to one inode, so a file can be written under a name that is
not its own. `Separate` is the invariant of a process that never lets an inode
have names on both sides of a directory's boundary and writes inside only.
-/

namespace Unix

/-- No inode has a name inside the region and a name outside. -/
def Unshared (region : Location) (fs : FileSystem) : Prop :=
  ∀ inner outer number, region <+: inner → ¬ region <+: outer →
    fs.node inner = some (.entry number) → fs.node outer ≠ some (.entry number)

/-- No inode is shared across the boundary, and no open file has a name outside. -/
structure Separate (region : Location) (disk : Disk) : Prop where
  unshared : Unshared region disk.fs
  opened : ∀ file ∈ disk.opened, ∀ location, disk.fs.node location = some (.entry file.1) →
    region <+: location

/-- What a change needs to keep the sides apart: a hard link stays on the side of
its source, and a file is opened inside. -/
def KeepsSides (region current : Location) (disk : Disk) : Action → Prop
  | .link source path => ∀ origin location number, Locates disk.fs current source origin →
      disk.fs.node origin = some (.entry number) → Locates disk.fs current path location →
      disk.fs.node location = none → (region <+: origin ↔ region <+: location)
  | .create path _ | .truncate path _ => ∀ location, Follows disk.fs current path location →
      ¬ disk.fs.IsDirectory location → region <+: location
  | .mkdir _ | .createNew .. | .append .. | .symlink .. | .unlink _ => True

/-- Whether a change writes an open file. -/
def Action.Writes : Action → Prop
  | .create .. | .truncate .. | .append .. => True
  | .mkdir _ | .createNew .. | .symlink .. | .unlink _ | .link .. => False

variable {region current : Location} {disk : Disk}

/-- Storing an inode is not seen at a name of another one. -/
theorem FileSystem.contentAt_store {fs : FileSystem} {location : Location} {number : Nat}
    (content : Inode) (different : fs.node location ≠ some (.entry number)) :
    (fs.store number content).contentAt location = fs.contentAt location := by
  unfold FileSystem.contentAt
  rw [FileSystem.store_node]
  cases isNode : fs.node location with
  | none => rfl
  | some node =>
      cases node with
      | directory => rfl
      | entry other =>
          have notSame : other ≠ number := by
            rintro rfl
            exact different isNode
          exact congrArg some (FileSystem.store_inode_ne fs content notSame)

/-- A node is not seen at another location. -/
theorem FileSystem.contentAt_put {fs : FileSystem} {location other : Location} (node : Node)
    (different : other ≠ location) :
    (fs.put location node).contentAt other = fs.contentAt other := by
  unfold FileSystem.contentAt
  rw [FileSystem.put_node_ne fs node different, FileSystem.put_inode]

/-- A name whose inode has its other names on the same side shares nothing across
the boundary. -/
theorem Unshared.put_entry {fs : FileSystem} {location : Location} {number : Nat}
    (unshared : Unshared region fs)
    (sameSide : ∀ other, fs.node other = some (.entry number) →
      (region <+: other ↔ region <+: location)) :
    Unshared region (fs.put location (.entry number)) := by
  intro inner outer shared inside outside isInner isOuter
  by_cases innerNew : inner = location
  · have outerOld : outer ≠ location := by
      rintro rfl
      exact outside (innerNew ▸ inside)
    rw [innerNew, FileSystem.put_node_self] at isInner
    cases isInner
    rw [FileSystem.put_node_ne fs _ outerOld] at isOuter
    exact outside ((sameSide outer isOuter).mpr (innerNew ▸ inside))
  · rw [FileSystem.put_node_ne fs _ innerNew] at isInner
    by_cases outerNew : outer = location
    · rw [outerNew, FileSystem.put_node_self] at isOuter
      cases isOuter
      exact outside (outerNew ▸ (sameSide inner isInner).mp inside)
    · rw [FileSystem.put_node_ne fs _ outerNew] at isOuter
      exact unshared inner outer shared inside outside isInner isOuter

/-- Fewer entries share less. -/
theorem Unshared.of_entries {fs next : FileSystem} (unshared : Unshared region fs)
    (entries : ∀ location number, next.node location = some (.entry number) →
      fs.node location = some (.entry number)) : Unshared region next :=
  fun inner outer number inside outside isInner isOuter =>
    unshared inner outer number inside outside (entries inner number isInner)
      (entries outer number isOuter)

/-- Entries after a directory is made were there before. -/
theorem entry_of_put_directory {fs : FileSystem} {location other : Location} {number : Nat}
    (isEntry : (fs.put location .directory).node other = some (.entry number)) :
    fs.node other = some (.entry number) := by
  by_cases same : other = location
  · rw [same, FileSystem.put_node_self] at isEntry
    cases isEntry
  · rwa [FileSystem.put_node_ne fs _ same] at isEntry

/-- Entries after a name is taken away were there before. -/
theorem entry_of_remove {fs : FileSystem} {location other : Location} {number : Nat}
    (isEntry : (fs.remove location).node other = some (.entry number)) :
    fs.node other = some (.entry number) := by
  by_cases same : other = location
  · rw [same, FileSystem.remove_node_self] at isEntry
    cases isEntry
  · rwa [FileSystem.remove_node_ne fs same] at isEntry

/-- Fewer entries keep the sides apart, as long as no file is opened. -/
theorem Separate.of_entries {next : Disk} (separate : Separate region disk)
    (entries : ∀ location number, next.fs.node location = some (.entry number) →
      disk.fs.node location = some (.entry number)) (opened : next.opened = disk.opened) :
    Separate region next where
  unshared := separate.unshared.of_entries entries
  opened file member location isEntry :=
    separate.opened file (opened ▸ member) location (entries location file.1 isEntry)

/-- A new name keeps the sides apart if its inode has its names on that side. -/
theorem Separate.put_entry {next : Disk} {location : Location} {number : Nat}
    (separate : Separate region disk)
    (sameSide : ∀ other, disk.fs.node other = some (.entry number) →
      (region <+: other ↔ region <+: location))
    (openedInside : ∀ file ∈ disk.opened, file.1 = number → region <+: location)
    (isNode : next.fs.node = (disk.fs.put location (.entry number)).node)
    (opened : ∀ file ∈ next.opened, file ∈ disk.opened ∨ file.1 = number ∧
      region <+: location) : Separate region next := by
  refine ⟨fun inner outer shared => ?_, fun file member other isEntry => ?_⟩
  · rw [isNode]
    exact separate.unshared.put_entry sameSide inner outer shared
  · rw [isNode] at isEntry
    by_cases same : other = location
    · rw [same, FileSystem.put_node_self] at isEntry
      have isNumber : file.1 = number := by
        cases isEntry
        rfl
      rw [same]
      rcases opened file member with old | ⟨_, inside⟩
      · exact openedInside file old isNumber
      · exact inside
    · rw [FileSystem.put_node_ne _ _ same] at isEntry
      rcases opened file member with old | ⟨isNumber, inside⟩
      · exact separate.opened file old other isEntry
      · exact (sameSide other (isNumber ▸ isEntry)).mpr inside

/-- A new entry with an inode of its own keeps the sides apart. -/
theorem Separate.put_fresh {next : Disk} {location : Location} {number : Nat}
    (separate : Separate region disk) (fresh : disk.Fresh number)
    (isNode : next.fs.node = (disk.fs.put location (.entry number)).node)
    (opened : ∀ file ∈ next.opened, file ∈ disk.opened ∨ file.1 = number ∧
      region <+: location) : Separate region next :=
  separate.put_entry (fun other isEntry => absurd isEntry (fresh.unnamed other))
    (fun file member same => absurd same (fresh.unopened file member)) isNode opened

/-- Every change that keeps the sides keeps them apart. -/
theorem Separate.performs (separate : Separate region disk) {action : Action}
    {location : Location} {next : Disk} (keeps : KeepsSides region current disk action)
    (performs : Performs current disk action location next) : Separate region next := by
  cases performs with
  | mkdir _ _ => exact separate.of_entries (fun _ _ => entry_of_put_directory) rfl
  | unlink _ _ => exact separate.of_entries (fun _ _ => entry_of_remove) rfl
  | append _ _ => exact separate.of_entries (fun _ _ isEntry => isEntry) rfl
  | createNew _ _ fresh => exact separate.put_fresh fresh rfl fun _ old => .inl old
  | symlink _ _ fresh => exact separate.put_fresh fresh rfl fun _ old => .inl old
  | create follows absent fresh =>
      have notDirectory : ¬ disk.fs.IsDirectory location := by simp [absent]
      have inside := keeps location follows notDirectory
      refine separate.put_fresh fresh rfl fun file member => ?_
      rcases List.mem_cons.mp member with rfl | old
      · exact .inr ⟨rfl, inside⟩
      · exact .inl old
  | truncate follows present _ =>
      have notDirectory : ¬ disk.fs.IsDirectory location := by simp [present]
      have inside := keeps location follows notDirectory
      refine ⟨separate.unshared, fun file member other isEntry => ?_⟩
      rcases List.mem_cons.mp member with rfl | old
      · by_contra outside
        exact separate.unshared location other _ inside outside present isEntry
      · exact separate.opened file old other isEntry
  | @link _ _ origin _ number sourceLocates sourcePresent locates absent =>
      have sides := keeps _ _ _ sourceLocates sourcePresent locates absent
      have sameSide : ∀ other, disk.fs.node other = some (.entry number) →
          (region <+: other ↔ region <+: location) := by
        intro other isEntry
        rw [← sides]
        constructor
        · intro inside
          by_contra outside
          exact separate.unshared other origin number inside outside isEntry sourcePresent
        · intro inside
          by_contra outside
          exact separate.unshared origin other number inside outside sourcePresent isEntry
      refine separate.put_entry sameSide (fun file member same => ?_) rfl fun _ old => .inl old
      exact sides.mp (separate.opened file member _ (same ▸ sourcePresent))

/-- Writing an open file leaves every file outside as it was. -/
theorem Separate.contentAt_performs (separate : Separate region disk) {action : Action}
    {location outer : Location} {next : Disk} (keeps : KeepsSides region current disk action)
    (writes : action.Writes) (performs : Performs current disk action location next)
    (outside : ¬ region <+: outer) : next.fs.contentAt outer = disk.fs.contentAt outer := by
  cases performs with
  | mkdir | createNew | symlink | unlink | link => exact writes.elim
  | @create _ _ file follows absent fresh =>
      have notDirectory : ¬ disk.fs.IsDirectory location := by simp [absent]
      have different : outer ≠ location := by
        rintro rfl
        exact outside (keeps _ follows notDirectory)
      have notFile : (disk.fs.put location (.entry file)).node outer ≠ some (.entry file) := by
        rw [FileSystem.put_node_ne _ _ different]
        exact fresh.unnamed outer
      rw [FileSystem.contentAt_store _ notFile, FileSystem.contentAt_put _ different]
  | truncate follows present _ =>
      have notDirectory : ¬ disk.fs.IsDirectory location := by simp [present]
      have inside := keeps location follows notDirectory
      exact FileSystem.contentAt_store _
        (separate.unshared location outer _ inside outside present)
  | append opened _ =>
      exact FileSystem.contentAt_store _ fun isEntry =>
        outside (separate.opened _ opened outer isEntry)

/-- Changes that keep the sides on every disk keep them apart together. -/
theorem Separate.performsAll (separate : Separate region disk) {actions : List Action}
    {next : Disk} (keeps : ∀ action ∈ actions, ∀ here, KeepsSides region current here action)
    (performs : PerformsAll current disk actions next) : Separate region next :=
  performs.preserves
    (fun here _ _ _ keeps separate step => separate.performs (keeps here) step) keeps separate

/-- A process that has opened nothing starts apart. -/
theorem Separate.initial {before : FileSystem} (unshared : Unshared region before) :
    Separate region { fs := before } :=
  ⟨unshared, nofun⟩

end Unix
