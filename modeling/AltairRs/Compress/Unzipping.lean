import AltairRs.Compress.ZipArchive
import AltairRs.Data.Keyed
import AltairRs.Unix.PlainDisk

/-!
# Unzipping a folder's archive

`unzipped` is what the loop leaves of a listing under a cap: every file up to one
byte over it, and whether the loop returns `Ok`. On a disk without links, where a
call fails only if a directory is missing or something is in the way, the loop
leaves exactly that.
-/

namespace AltairRs.Compress

open Data Effect Keyed Unix

/-- The calls of an extraction on a disk without links. -/
def plainDisk (current : Location) : Handler tarSignature PlainDisk
  | disk, .openArchive => (.ok (), disk)
  | disk, .createDirAll path =>
      match disk.makeDirs current path with
      | (true, made) => (.ok (), made)
      | (false, made) => (.error ⟨"Not a directory (os error 20)"⟩, made)
  | disk, .createFile path =>
      match disk.create current path with
      | none => (.error ⟨"No such file or directory (os error 2)"⟩, disk)
      | some (file, created) => (.ok file, created)
  | disk, .copy file bytes =>
      match disk.append file bytes with
      | none => (.error ⟨"Bad file descriptor (os error 9)"⟩, disk)
      | some written => (.ok bytes.length, written)
  -- Unzipping never asks for this.
  | disk, .unpack _ _ => (.error ⟨"Operation not supported (os error 95)"⟩, disk)

/-- What the loop leaves of a listing, and whether it returns `Ok`. -/
def unzipped {κ : Type} (limit : UInt64) : Nat → List (κ × Option (List UInt8)) →
    List (κ × Option (List UInt8)) × Bool
  | _, [] => ([], true)
  | total, (path, none) :: rest =>
      let later := unzipped limit total rest
      ((path, none) :: later.1, later.2)
  | total, (path, some data) :: rest =>
      let bounded := data.take (saturatingAdd (limit.toNat - total) 1)
      let next := saturatingAdd total bounded.length
      if limit.toNat < next then
        ([(path, some bounded)], false)
      else
        let later := unzipped limit next rest
        ((path, some bounded) :: later.1, later.2)

/-- How the loop ends. -/
def ending (limit : UInt64) (isOk : Bool) : Result Unit :=
  if isOk then .ok () else .error (.decompressionLimit limit.toNat "zip-entry")

/-- The bytes of the files in a listing. -/
def entriesSize {κ : Type} (entries : List (κ × Option (List UInt8))) : Nat :=
  ((entries.filterMap Prod.snd).map List.length).sum

@[simp] theorem entriesSize_nil {κ : Type} :
    entriesSize ([] : List (κ × Option (List UInt8))) = 0 := rfl

@[simp] theorem entriesSize_directory {κ : Type} (path : κ)
    (rest : List (κ × Option (List UInt8))) :
    entriesSize ((path, none) :: rest) = entriesSize rest := rfl

@[simp] theorem entriesSize_file {κ : Type} (path : κ) (data : List UInt8)
    (rest : List (κ × Option (List UInt8))) :
    entriesSize ((path, some data) :: rest) = data.length + entriesSize rest := rfl

/-- What stands on the disk for an entry. -/
def plainNode : Option (List UInt8) → PlainNode
  | none => .directory
  | some content => .file content

/-- An entry below a location. -/
def placeAt (location : Location) (entry : List String × Option (List UInt8)) :
    Location × PlainNode :=
  (location ++ entry.1, plainNode entry.2)

variable {disk : PlainDisk} {current location : Location} {dest : Path} {limit : UInt64}

/-- A new file is copied up to one byte over the cap. -/
theorem copyBounded_gives {above : Path} {directory : Location} {name : String} (kind : String)
    (limit : UInt64) (total : Nat) (data : List UInt8)
    (follows : disk.follow current above = some directory)
    (absent : disk.node (directory ++ [name]) = none) :
    let bounded := data.take (saturatingAdd (limit.toNat - total) 1)
    (plainDisk current).Gives (copyBounded kind limit total data (above ++ [.normal name])) disk
      (if limit.toNat < saturatingAdd total bounded.length then
        .error (.decompressionLimit limit.toNat kind)
      else
        .ok (saturatingAdd total bounded.length))
      { disk.put (directory ++ [name]) (.file bounded) with
        opened := disk.opened ++ [directory ++ [name]] } := by
  intro bounded
  let created : PlainDisk :=
    { disk.put (directory ++ [name]) (.file []) with
      opened := disk.opened ++ [directory ++ [name]] }
  have isMade : plainDisk current disk (.createDirAll above) = (.ok (), disk) := by
    simp [plainDisk, PlainDisk.makeDirs_present follows]
  have isCreated : plainDisk current disk (.createFile (above ++ [.normal name])) =
      (.ok disk.opened.length, created) := by
    simp [plainDisk, PlainDisk.create_missing follows absent, created]
  have isFile : created.node (directory ++ [name]) = some (.file []) :=
    PlainDisk.put_node_self ..
  have isCopied : plainDisk current created (.copy disk.opened.length bounded) =
      (.ok bounded.length, created.put (directory ++ [name]) (.file bounded)) := by
    simp [plainDisk, PlainDisk.append_last isFile bounded rfl]
  have isFinal : created.put (directory ++ [name]) (.file bounded) =
      { disk.put (directory ++ [name]) (.file bounded) with
        opened := disk.opened ++ [directory ++ [name]] } := by
    simp [created, PlainDisk.put]
  unfold copyBounded createParents
  rw [parent_concat_normal]
  refine .bind (.perform isMade) (.bind (.perform isCreated) (.bind (.perform isCopied) ?_))
  rw [isFinal]
  simp only
  split_ifs
  · exact .done _
  · exact .done _

/-- A path of names goes below the destination. -/
theorem resolve_named (dest : Path) {names : List String} (isSome : names ≠ []) :
    resolve dest (named names) = .ok (dest ++ named names) := by
  refine (resolve_eq_ok_iff dest _ _).mpr ⟨?_, ?_⟩
  · intro component member
    obtain ⟨name, _, rfl⟩ := List.mem_map.mp member
    trivial
  · cases names with
    | nil => exact absurd rfl isSome
    | cons first rest => rfl

/-- What an archive holds for a listing. -/
def itemsOf {File : Type} (crate : ZipCrate File)
    (entries : List (List String × Option (List UInt8))) : List (Except String ZipEntry) :=
  entries.map fun entry => .ok (crate.entry (crate.item entry))

/-- The disk while a listing is extracted: the branches made so far can be followed,
and nothing stands where nothing was taken. -/
structure Extracting (current : Location) (dest : Path) (location : Location)
    (branches taken : List (List String)) (disk : PlainDisk) : Prop where
  follows : ∀ above ∈ branches,
    disk.follow current (dest ++ named above) = some (location ++ above)
  vacant : ∀ path, path ≠ [] → path ∉ taken → disk.node (location ++ path) = none

/-- A new node leaves the branches as they are. -/
theorem Extracting.put {branches taken : List (List String)} {path : List String}
    (extracting : Extracting current dest location branches taken disk)
    (after : PlainDisk) (node : PlainNode) (absent : disk.node (location ++ path) = none)
    (isNode : after.node = Function.update disk.node (location ++ path) (some node)) :
    Extracting current dest location branches (path :: taken) after := by
  refine ⟨fun above isBranch => ?_, fun other isSome untaken => ?_⟩
  · refine PlainDisk.follow_of_directories (extracting.follows above isBranch) fun here there => ?_
    have different : here ≠ location ++ path := by
      rintro rfl
      cases absent.symm.trans there
    rw [isNode, Function.update_of_ne different, there]
  · obtain ⟨different, notTaken⟩ := not_or.mp (mt List.mem_cons.mpr untaken)
    have elsewhere : location ++ other ≠ location ++ path := fun same =>
      different (List.append_cancel_left same)
    rw [isNode, Function.update_of_ne elsewhere, extracting.vacant other isSome notTaken]

/-- A new directory is one more branch. -/
theorem Extracting.branch {branches taken : List (List String)} {above : List String}
    {name : String} (extracting : Extracting current dest location branches taken disk)
    (inside : above ∈ branches) (absent : disk.node (location ++ (above ++ [name])) = none) :
    Extracting current dest location ((above ++ [name]) :: branches) ((above ++ [name]) :: taken)
      (disk.put (location ++ (above ++ [name])) .directory) := by
  have grown :=
    extracting.put (disk.put (location ++ (above ++ [name])) .directory) .directory absent rfl
  refine ⟨List.forall_mem_cons.mpr ⟨?_, grown.follows⟩, grown.vacant⟩
  have isHere : (disk.put (location ++ (above ++ [name])) .directory).node
      (location ++ above ++ [name]) = some .directory := by
    rw [List.append_assoc]
    exact PlainDisk.put_node_self ..
  have isPath : dest ++ named (above ++ [name]) = dest ++ named above ++ [.normal name] := by
    simp [named]
  rw [isPath, PlainDisk.follow_append, grown.follows above inside, Option.bind_some,
    PlainDisk.follow, if_pos isHere, List.append_assoc]
  rfl

/-- A file goes to its place, up to the cap. -/
theorem unzipEntry_gives_file {File : Type} (crate : ZipCrate File) (limit : UInt64) (total : Nat)
    {above : List String} {name : String} (content : List UInt8)
    (isPath : ∀ part ∈ above ++ [name], IsZipName part)
    (follows : disk.follow current (dest ++ named above) = some (location ++ above))
    (absent : disk.node (location ++ (above ++ [name])) = none) :
    let bounded := content.take (saturatingAdd (limit.toNat - total) 1)
    (plainDisk current).Gives
      (unzipEntry dest limit total (crate.entry (crate.item (above ++ [name], some content)))) disk
      (if limit.toNat < saturatingAdd total bounded.length then
        .error (.decompressionLimit limit.toNat "zip-entry")
      else
        .ok (saturatingAdd total bounded.length))
      { disk.put (location ++ (above ++ [name])) (.file bounded) with
        opened := disk.opened ++ [location ++ (above ++ [name])] } := by
  have copied := copyBounded_gives "zip-entry" limit total content follows
    (by rwa [List.append_assoc])
  rw [List.append_assoc, List.append_assoc] at copied
  rw [unzipEntry, crate.entry_item isPath]
  simp only [resolve_named dest (List.concat_ne_nil name above)]
  rw [named, List.map_append]
  exact copied

/-- A directory is made at its place. -/
theorem unzipEntry_gives_directory {File : Type} (crate : ZipCrate File) (limit : UInt64)
    (total : Nat) {above : List String} {name : String}
    (isPath : ∀ part ∈ above ++ [name], IsZipName part)
    (follows : disk.follow current (dest ++ named above) = some (location ++ above))
    (absent : disk.node (location ++ (above ++ [name])) = none) :
    (plainDisk current).Gives
      (unzipEntry dest limit total (crate.entry (crate.item (above ++ [name], none)))) disk
      (.ok total) (disk.put (location ++ (above ++ [name])) .directory) := by
  have isMade : plainDisk current disk (.createDirAll (dest ++ named (above ++ [name]))) =
      (.ok (), disk.put (location ++ (above ++ [name])) .directory) := by
    have made := PlainDisk.makeDirs_missing follows (by rwa [List.append_assoc])
    rw [List.append_assoc, List.append_assoc] at made
    simp [plainDisk, named, made]
  rw [unzipEntry, crate.entry_item isPath]
  simp only [resolve_named dest (List.concat_ne_nil name above)]
  exact .bind (.perform isMade) (.done _)

/-- The loop leaves what `unzipped` says, and ends as it says. -/
theorem unzipLoop_gives {File : Type} (crate : ZipCrate File) (limit : UInt64)
    {entries : List (List String × Option (List UInt8))} {branches taken : List (List String)}
    (rooted : Forest.Rooted branches taken entries)
    (areNames : ∀ entry ∈ entries, ∀ name ∈ entry.1, IsZipName name)
    (extracting : Extracting current dest location branches taken disk) (total : Nat) :
    ∃ final, (plainDisk current).Gives (unzipLoop dest limit total (itemsOf crate entries)) disk
        (ending limit (unzipped limit total entries).2) final ∧
      final.node =
        enterAll ((unzipped limit total entries).1.map (placeAt location)) disk.node := by
  induction rooted generalizing disk total with
  | nil => exact ⟨disk, .done _, rfl⟩
  | @leaf branches taken above name content rest inside fresh next ih =>
      obtain ⟨isPath, others⟩ := List.forall_mem_cons.mp areNames
      have absent : disk.node (location ++ (above ++ [name])) = none :=
        extracting.vacant _ (by simp) fresh
      let bounded := content.take (saturatingAdd (limit.toNat - total) 1)
      let after : PlainDisk :=
        { disk.put (location ++ (above ++ [name])) (.file bounded) with
          opened := disk.opened ++ [location ++ (above ++ [name])] }
      have entered : (plainDisk current).Gives
          (unzipEntry dest limit total (crate.entry (crate.item (above ++ [name], some content))))
          disk (if limit.toNat < saturatingAdd total bounded.length then
            .error (.decompressionLimit limit.toNat "zip-entry")
          else
            .ok (saturatingAdd total bounded.length)) after :=
        unzipEntry_gives_file crate limit total content isPath (extracting.follows above inside)
          absent
      have onward := extracting.put after (.file bounded) absent rfl
      by_cases exceeds : limit.toNat < saturatingAdd total bounded.length
      · have isUnzipped : unzipped limit total ((above ++ [name], some content) :: rest) =
            ([(above ++ [name], some bounded)], false) := if_pos exceeds
        rw [if_pos exceeds] at entered
        rw [isUnzipped]
        exact ⟨after, .bind entered (.done _), rfl⟩
      · have isUnzipped : unzipped limit total ((above ++ [name], some content) :: rest) =
            ((above ++ [name], some bounded) ::
              (unzipped limit (saturatingAdd total bounded.length) rest).1,
              (unzipped limit (saturatingAdd total bounded.length) rest).2) := if_neg exceeds
        rw [if_neg exceeds] at entered
        rw [isUnzipped]
        obtain ⟨final, gives, isNode⟩ := ih others onward (saturatingAdd total bounded.length)
        exact ⟨final, .bind entered gives, isNode⟩
  | @branch branches taken above name rest inside fresh next ih =>
      obtain ⟨isPath, others⟩ := List.forall_mem_cons.mp areNames
      have absent : disk.node (location ++ (above ++ [name])) = none :=
        extracting.vacant _ (by simp) fresh
      have entered := unzipEntry_gives_directory crate limit total isPath
        (extracting.follows above inside) absent
      obtain ⟨final, gives, isNode⟩ := ih others (extracting.branch inside absent) total
      exact ⟨final, .bind entered gives, isNode⟩

end AltairRs.Compress
