import AltairRs.Compress.TarDisk
import AltairRs.Compress.TreeArchive
import AltairRs.Compress.ZipRoundTrip

/-!
# Extraction where directories have modes

`Entry::unpack` gives a directory its recorded mode at once, before anything is made in it, so
that a directory that its owner may not write stays empty. An extraction that only has to do
with directories that let their owner search and write them does what it does on a disk without
modes.
-/

namespace AltairRs.Compress

open Data Effect Unix

/-- The calls of an extraction on a disk without links and modes, `Entry::unpack` for a
directory or a payload included. -/
def plainTarDisk (current : Location) : Handler tarSignature PlainDisk
  | disk, .unpack entry dst =>
      match disk.place current dst with
      | none => (.error ⟨"No such file or directory (os error 2)"⟩, disk)
      | some location =>
          if entry.entryType = .directory then
            match disk.node location with
            | some (.file _) => (.error ⟨"File exists (os error 17)"⟩, disk)
            | some .directory => (.ok (), disk)
            | none => (.ok (), disk.put location .directory)
          else if entry.entryType.hasPayload then
            match disk.node location with
            | some .directory => (.error ⟨"Is a directory (os error 21)"⟩, disk)
            | _ => (.ok (), disk.put location (.file entry.data))
          else
            (.error ⟨"Operation not supported (os error 95)"⟩, disk)
  | disk, op => plainDisk current disk op

/-- The mode that was recorded is set, but for its special bits. -/
def setRecorded (entry : TarEntry) (location : Location) (disk : ModeDisk) : ModeDisk :=
  match entry.mode with
  | .ok mode => disk.chmod location (mode &&& 0o777)
  | .error _ => disk

/-- No node changes. -/
theorem setRecorded_plain (entry : TarEntry) (location : Location) (disk : ModeDisk) :
    (setRecorded entry location disk).plain = disk.plain := by
  unfold setRecorded
  split <;> rfl

/-- The calls of an extraction on a disk without links, where directories have modes. A
directory that may not be searched is answered like one that is missing. -/
def modeTarDisk (current : Location) : Handler tarSignature ModeDisk
  | disk, .openArchive => (.ok (), disk)
  | disk, .createDirAll path =>
      match disk.makeDirs current path with
      | (true, made) => (.ok (), made)
      | (false, made) => (.error ⟨"Not a directory (os error 20)"⟩, made)
  | disk, .createFile path =>
      match disk.create current path with
      | none => (.error ⟨"No such file or directory (os error 2)"⟩, disk)
      | some (file, created) => (.ok file, created)
  | disk, .copy file bytes =>
      match disk.plain.append file bytes with
      | none => (.error ⟨"Bad file descriptor (os error 9)"⟩, disk)
      | some written => (.ok bytes.length, disk.onPlain written)
  | disk, .unpack entry dst =>
      match disk.place current dst with
      | none => (.error ⟨"No such file or directory (os error 2)"⟩, disk)
      | some location =>
          if entry.entryType = .directory then
            match disk.plain.node location with
            | some (.file _) => (.error ⟨"File exists (os error 17)"⟩, disk)
            | some .directory => (.ok (), setRecorded entry location disk)
            | none =>
                if disk.Allows writeBit location.dropLast then
                  (.ok (), setRecorded entry location (disk.mkdir location))
                else
                  (.error ⟨"Permission denied (os error 13)"⟩, disk)
          else if entry.entryType.hasPayload then
            match disk.plain.node location with
            | some .directory => (.error ⟨"Is a directory (os error 21)"⟩, disk)
            | _ =>
                -- An old file is unlinked first, which takes the same permission.
                if disk.Allows writeBit location.dropLast then
                  (.ok (), disk.onPlain (disk.plain.put location (.file entry.data)))
                else
                  (.error ⟨"Permission denied (os error 13)"⟩, disk)
          else
            (.error ⟨"Operation not supported (os error 95)"⟩, disk)

/-- Every directory above the path has something in it, by this account. -/
def Reached (inner : List String → Prop) (names : List String) : Prop :=
  ∀ above name rest, names = above ++ name :: rest → inner above

/-- The calls that make something of these directories below the destination, and unpack each
of them with a mode that lets its owner go on. -/
def TarOp.Within (inner : List String → Prop) (dest : Path) : TarOp → Prop
  | .openArchive | .copy .. => True
  | .createDirAll path => ∃ names, path = dest ++ named names ∧ Reached inner names
  | .createFile path =>
      ∃ above name, path = dest ++ named (above ++ [name]) ∧ Reached inner (above ++ [name])
  | .unpack entry dst =>
      ∃ above name, dst = dest ++ named (above ++ [name]) ∧ Reached inner (above ++ [name]) ∧
        (entry.entryType = .directory → inner (above ++ [name]) →
          ∀ mode, entry.mode = .ok mode → OwnerMay mode)

/-- The way to the destination may be searched, and the directories below it searched and
written. -/
structure Admits (inner : List String → Prop) (current : Location) (dest : Path)
    (location : Location) (disk : ModeDisk) : Prop where
  way : ∀ place ∈ lookups current dest, disk.Allows searchBit place
  inside : ∀ names, inner names → disk.Open (location ++ names)

/-- The way to a location does not lead through what is below it. -/
def Apart (current : Location) (dest : Path) (location : Location) : Prop :=
  ∀ place ∈ lookups current dest, ∀ names, names ≠ [] → place ≠ location ++ names

section Paths

variable {inner : List String → Prop} {current location : Location} {dest : Path}
  {disk : ModeDisk} {above names : List String} {name : String}

/-- What is reached is in a directory that has something in it. -/
theorem Reached.isInner (reached : Reached inner (above ++ [name])) : inner above :=
  reached above name [] rfl

/-- That directory is reached. -/
theorem Reached.dropLast (reached : Reached inner (above ++ [name])) : Reached inner above := by
  rintro front next rest rfl
  exact reached front next (rest ++ [name]) (List.append_assoc ..)

/-- A path of names leads below. -/
theorem target_named (current : Location) (dest : Path) (names : List String) :
    target current (dest ++ named names) = target current dest ++ names := by
  induction names generalizing dest with
  | nil => rw [named, List.map_nil, List.append_nil, List.append_nil]
  | cons first names ih =>
      have isFirst : target current (dest ++ [.normal first]) = target current dest ++ [first] := by
        clear ih
        induction dest generalizing current with
        | nil => rfl
        | cons component dest ih => cases component <;> exact ih _
      have onward := ih (dest ++ [.normal first])
      rw [isFirst, List.append_assoc, List.append_assoc] at onward
      exact onward

/-- The way to what is reached may be searched. -/
theorem Admits.way_named (admits : Admits inner current dest location disk)
    (isLocation : location = target current dest) (reached : Reached inner names) :
    ∀ place ∈ lookups current (dest ++ named names), disk.Allows searchBit place := by
  intro place member
  rw [lookups_append, ← isLocation] at member
  rcases List.mem_append.mp member with isWay | below
  · exact admits.way place isWay
  · obtain ⟨above, name, rest, isPath, rfl⟩ := mem_lookups_names below
    exact (admits.inside above (reached above name rest isPath)).1

/-- What is reached has its place as on the disk without modes. -/
theorem Admits.place_eq (admits : Admits inner current dest location disk)
    (isLocation : location = target current dest) (reached : Reached inner (above ++ [name])) :
    disk.place current (dest ++ named (above ++ [name])) =
      disk.plain.place current (dest ++ named (above ++ [name])) := by
  have isPath : dest ++ named (above ++ [name]) = dest ++ named above ++ [.normal name] := by
    simp [named]
  rw [isPath, ModeDisk.place, PlainDisk.place, List.getLast?_concat, List.dropLast_concat,
    ModeDisk.follow_eq_plain (admits.way_named isLocation reached.dropLast)]
  cases follows : disk.plain.follow current (dest ++ named above) with
  | none => rfl
  | some directory =>
      have isDirectory : directory = location ++ above := by
        rw [PlainDisk.follow_eq_target follows, target_named, isLocation]
      have allows : disk.Allows searchBit directory :=
        isDirectory ▸ (admits.inside above reached.isInner).1
      simp [Option.filter_some, allows]

/-- The place of a path of names is below. -/
theorem place_named {plain : PlainDisk} {place : Location}
    (isLocation : location = target current dest)
    (isPlace : plain.place current (dest ++ named (above ++ [name])) = some place) :
    place = location ++ (above ++ [name]) := by
  have isPath : dest ++ named (above ++ [name]) = dest ++ named above ++ [.normal name] := by
    simp [named]
  rw [isPath, PlainDisk.place, List.getLast?_concat, List.dropLast_concat] at isPlace
  obtain ⟨directory, follows, rfl⟩ := Option.map_eq_some_iff.mp isPlace
  rw [PlainDisk.follow_eq_target follows, target_named, isLocation, List.append_assoc]

end Paths

section Answers

variable {inner : List String → Prop} {current location : Location} {dest : Path}
  {disk next : ModeDisk} {names : List String} {op : TarOp}

/-- What takes nothing away leaves the way open. -/
theorem Admits.keeps (admits : Admits inner current dest location disk) (keeps : disk.Keeps next) :
    Admits inner current dest location next where
  way place member := keeps searchBit (by decide) place (admits.way place member)
  inside names isInner := by
    obtain ⟨searches, writes⟩ := admits.inside names isInner
    exact ⟨keeps searchBit (by decide) _ searches, keeps writeBit (by decide) _ writes⟩

/-- So does a mode below the destination that lets the owner go on where there is more. -/
theorem Admits.recorded {entry : TarEntry} (admits : Admits inner current dest location disk)
    (apart : Apart current dest location) (isSome : names ≠ [])
    (isMode : inner names → ∀ mode, entry.mode = .ok mode → OwnerMay mode) :
    Admits inner current dest location (setRecorded entry (location ++ names) disk) := by
  unfold setRecorded
  cases recorded : entry.mode with
  | error e => exact admits
  | ok mode =>
      refine ⟨fun place member => ?_, fun other isInner => ?_⟩
      · exact ModeDisk.chmod_allows_of_ne (apart place member names isSome) _
          (admits.way place member)
      · obtain ⟨searches, writes⟩ := admits.inside other isInner
        by_cases same : other = names
        · subst same
          obtain ⟨maySearch, mayWrite⟩ := isMode isInner mode recorded
          exact ⟨ModeDisk.chmod_allows_self (by rw [Nat.testBit_and, maySearch]; rfl),
            ModeDisk.chmod_allows_self (by rw [Nat.testBit_and, mayWrite]; rfl)⟩
        · have different : location ++ other ≠ location ++ names := fun equal =>
            same (List.append_cancel_left equal)
          exact ⟨ModeDisk.chmod_allows_of_ne different _ searches,
            ModeDisk.chmod_allows_of_ne different _ writes⟩

/-- The calls within these directories leave the way open. -/
theorem Admits.answered (admits : Admits inner current dest location disk)
    (isLocation : location = target current dest) (apart : Apart current dest location)
    (within : op.Within inner dest) :
    Admits inner current dest location (modeTarDisk current disk op).2 := by
  cases op with
  | openArchive => exact admits
  | createDirAll path =>
      have kept := admits.keeps (ModeDisk.Keeps.makeDirs disk current path)
      rcases isMade : disk.makeDirs current path with ⟨_ | _, made⟩
      all_goals
        rw [isMade] at kept
        simp only [modeTarDisk, isMade]
        exact kept
  | createFile path =>
      cases isCreated : disk.create current path with
      | none =>
          simp only [modeTarDisk, isCreated]
          exact admits
      | some created =>
          obtain ⟨place, -, -, -, isOpened⟩ := ModeDisk.create_eq_some isCreated
          simp only [modeTarDisk, isCreated, isOpened]
          exact admits.keeps (.putFile _ _ _ _)
  | copy file bytes =>
      cases isAppended : disk.plain.append file bytes with
      | none =>
          simp only [modeTarDisk, isAppended]
          exact admits
      | some written =>
          simp only [modeTarDisk, isAppended]
          exact admits.keeps (.onPlain fun place =>
            (PlainDisk.append_directories isAppended place).mp)
  | unpack entry dst =>
      obtain ⟨above, name, rfl, -, isMode⟩ := within
      simp only [modeTarDisk]
      split
      · exact admits
      · next place isPlace =>
          obtain rfl := place_named isLocation (ModeDisk.plain_place isPlace)
          have isSome : above ++ [name] ≠ [] := List.concat_ne_nil name above
          split
          · next isDirectory =>
              split
              · exact admits
              · exact admits.recorded apart isSome (isMode isDirectory)
              · split
                · exact (admits.keeps (.mkdir _ _)).recorded apart isSome (isMode isDirectory)
                · exact admits
          · split
            · split
              · exact admits
              · split
                · exact admits.keeps (.putFile _ _ _ _)
                · exact admits
            · exact admits

/-- Where the way is open, the modes do not matter. -/
theorem Admits.agrees (admits : Admits inner current dest location disk)
    (follows : disk.plain.follow current dest = some location) (within : op.Within inner dest) :
    (modeTarDisk current disk op).1 = (plainTarDisk current disk.plain op).1 ∧
      (modeTarDisk current disk op).2.plain = (plainTarDisk current disk.plain op).2 := by
  have isLocation : location = target current dest := PlainDisk.follow_eq_target follows
  cases op with
  | openArchive => exact ⟨rfl, rfl⟩
  | createDirAll path =>
      obtain ⟨names, rfl, reached⟩ := within
      have followed : disk.follow current dest = some location :=
        (ModeDisk.follow_eq_plain admits.way).trans follows
      have below : ∀ place ∈ lookups location (named names), disk.Open place := by
        intro place member
        obtain ⟨above, name, rest, isPath, rfl⟩ := mem_lookups_names member
        exact admits.inside above (reached above name rest isPath)
      obtain ⟨sameEnd, sameDisk⟩ := ModeDisk.makeDirs_eq_plain below
      rw [← ModeDisk.makeDirs_of_follow followed, ← PlainDisk.makeDirs_of_follow follows]
        at sameEnd sameDisk
      rcases isMade : disk.makeDirs current (dest ++ named names) with ⟨_ | _, made⟩
      all_goals
        rcases isPlain : disk.plain.makeDirs current (dest ++ named names) with ⟨_ | _, plain⟩
        all_goals
          rw [isMade, isPlain] at sameEnd sameDisk
          cases sameEnd
          all_goals
            simp only [modeTarDisk, plainTarDisk, plainDisk, isMade, isPlain]
            exact ⟨trivial, sameDisk⟩
  | createFile path =>
      obtain ⟨above, name, rfl, reached⟩ := within
      have samePlace := admits.place_eq isLocation reached
      simp only [modeTarDisk, plainTarDisk, plainDisk, ModeDisk.create, PlainDisk.create, samePlace]
      cases isPlace : disk.plain.place current (dest ++ named (above ++ [name])) with
      | none => exact ⟨rfl, rfl⟩
      | some place =>
          obtain rfl := place_named isLocation isPlace
          have writes : disk.Allows writeBit (location ++ (above ++ [name])).dropLast := by
            rw [← List.append_assoc, List.dropLast_concat]
            exact (admits.inside above reached.isInner).2
          cases isNode : disk.plain.node (location ++ (above ++ [name])) with
          | none =>
              simp only [isNode, if_pos writes, reduceCtorEq, if_false]
              exact ⟨trivial, rfl⟩
          | some node =>
              cases node with
              | directory =>
                  simp only [isNode, if_true]
                  exact ⟨trivial, trivial⟩
              | file content =>
                  simp only [isNode, Option.some_inj, reduceCtorEq, if_false]
                  exact ⟨trivial, rfl⟩
  | copy file bytes =>
      simp only [modeTarDisk, plainTarDisk, plainDisk]
      cases disk.plain.append file bytes with
      | none => exact ⟨rfl, rfl⟩
      | some written => exact ⟨rfl, rfl⟩
  | unpack entry dst =>
      obtain ⟨above, name, rfl, reached, -⟩ := within
      simp only [modeTarDisk, plainTarDisk, admits.place_eq isLocation reached]
      cases isPlace : disk.plain.place current (dest ++ named (above ++ [name])) with
      | none => exact ⟨rfl, rfl⟩
      | some place =>
          obtain rfl := place_named isLocation isPlace
          have writes : disk.Allows writeBit (location ++ (above ++ [name])).dropLast := by
            rw [← List.append_assoc, List.dropLast_concat]
            exact (admits.inside above reached.isInner).2
          by_cases isDirectory : entry.entryType = .directory
          · simp only [if_pos isDirectory]
            cases isNode : disk.plain.node (location ++ (above ++ [name])) with
            | none =>
                simp only [if_pos writes]
                exact ⟨trivial, setRecorded_plain ..⟩
            | some node =>
                cases node with
                | directory => exact ⟨rfl, setRecorded_plain ..⟩
                | file content => exact ⟨rfl, rfl⟩
          · simp only [if_neg isDirectory]
            by_cases hasPayload : entry.entryType.hasPayload
            · simp only [if_pos hasPayload]
              cases isNode : disk.plain.node (location ++ (above ++ [name])) with
              | none =>
                  simp only [if_pos writes]
                  exact ⟨trivial, rfl⟩
              | some node =>
                  cases node with
                  | directory => exact ⟨rfl, rfl⟩
                  | file content =>
                      simp only [if_pos writes]
                      exact ⟨trivial, rfl⟩
            · simp only [if_neg hasPayload]
              exact ⟨trivial, trivial⟩

/-- Directories stay, whatever is called. -/
theorem plainTarDisk_directories {plain : PlainDisk} {place : Location}
    (isDirectory : plain.node place = some .directory) :
    (plainTarDisk current plain op).2.node place = some .directory := by
  have stays {file : Location} (content : List UInt8)
      (notDirectory : plain.node file ≠ some .directory) :
      (plain.put file (.file content)).node place = some .directory := by
    have different : place ≠ file := by
      rintro rfl
      exact notDirectory isDirectory
    rwa [PlainDisk.put_node_ne _ _ different]
  cases op with
  | openArchive => exact isDirectory
  | createDirAll path =>
      have kept : (plain.makeDirs current path).2.node place = some .directory :=
        PlainDisk.makeDirs_directories isDirectory
      rcases isMade : plain.makeDirs current path with ⟨_ | _, made⟩
      all_goals
        rw [isMade] at kept
        simp only [plainTarDisk, plainDisk, isMade]
        exact kept
  | createFile path =>
      simp only [plainTarDisk, plainDisk, PlainDisk.create]
      cases plain.place current path with
      | none => exact isDirectory
      | some location =>
          by_cases there : plain.node location = some .directory
          · simp only [if_pos there]
            exact isDirectory
          · simp only [if_neg there]
            exact stays [] there
  | copy file bytes =>
      simp only [plainTarDisk, plainDisk]
      cases isAppended : plain.append file bytes with
      | none => exact isDirectory
      | some written => exact (PlainDisk.append_directories isAppended place).mpr isDirectory
  | unpack entry dst =>
      simp only [plainTarDisk]
      cases plain.place current dst with
      | none => exact isDirectory
      | some location =>
          by_cases ofDirectory : entry.entryType = .directory
          · simp only [if_pos ofDirectory]
            cases isNode : plain.node location with
            | none =>
                by_cases same : place = location
                · subst same
                  exact PlainDisk.put_node_self ..
                · exact (PlainDisk.put_node_ne _ _ same).trans isDirectory
            | some node =>
                cases node with
                | directory => exact isDirectory
                | file content => exact isDirectory
          · simp only [if_neg ofDirectory]
            by_cases hasPayload : entry.entryType.hasPayload
            · simp only [if_pos hasPayload]
              cases isNode : plain.node location with
              | none => exact stays _ (by simp [isNode])
              | some node =>
                  cases node with
                  | directory => exact isDirectory
                  | file content => exact stays _ (by simp [isNode])
            · simp only [if_neg hasPayload]
              exact isDirectory

/-- What an extraction gives on the disk without modes it gives where the way is open. -/
theorem Admits.gives {α : Type} {program : TarProgram α} {value : α} {final : PlainDisk}
    (admits : Admits inner current dest location disk)
    (follows : disk.plain.follow current dest = some location) (apart : Apart current dest location)
    (requests : Requests (TarOp.Within inner dest) program)
    (gives : (plainTarDisk current).Gives program disk.plain value final) :
    ∃ last, (modeTarDisk current).Gives program disk value last ∧ last.plain = final := by
  have isLocation : location = target current dest := PlainDisk.follow_eq_target follows
  have agree : ∀ (here : ModeDisk) (op : TarOp), op.Within inner dest →
      Admits inner current dest location here ∧ here.plain.follow current dest = some location →
        (modeTarDisk current here op).1 = (plainTarDisk current here.plain op).1 ∧
          (modeTarDisk current here op).2.plain = (plainTarDisk current here.plain op).2 ∧
          Admits inner current dest location (modeTarDisk current here op).2 ∧
          (modeTarDisk current here op).2.plain.follow current dest = some location := by
    rintro here op within ⟨admits, follows⟩
    obtain ⟨sameResponse, samePlain⟩ := admits.agrees follows within
    refine ⟨sameResponse, samePlain, admits.answered isLocation apart within, ?_⟩
    rw [samePlain]
    exact PlainDisk.follow_of_directories follows fun _ => plainTarDisk_directories
  exact requests.gives_through agree ⟨admits, follows⟩ gives

end Answers

/-- A recorded path passes the checks. -/
theorem Records.checkEntry {mode : List String → Nat}
    {path : List String × Option (List UInt8)} {entry : TarEntry}
    (records : Records mode path entry) (dest : Path) (isSome : path.1 ≠ []) :
    checkEntry dest entry = .ok (dest ++ named path.1) := by
  have noLink : (entry.entryType.isSymlink || entry.entryType.isHardLink) = false := by
    obtain ⟨_, isKind, _⟩ := records
    cases isContent : path.2 with
    | none =>
        rw [isContent] at isKind
        rw [show entry.entryType = .directory from isKind]
        rfl
    | some content =>
        rw [isContent] at isKind
        rcases isKind.1 with isType | isType <;> rw [isType] <;> rfl
  rw [Compress.checkEntry, records.isPath]
  simp only [Except.mapError, bind, Except.bind, resolve_named dest isSome, checkEntryLinks, noLink]
  rfl

section Loops

/-- Either loop: each step is one entry, and the next ones follow unless it fails. -/
structure IsLoop {Entry : Type} (step : Nat → Entry → TarProgram (Result Nat))
    (loop : Nat → List Entry → TarProgram (Result Unit)) : Prop where
  nil : ∀ total, loop total [] = .done (.ok ())
  cons : ∀ total entry rest, loop total (entry :: rest) = step total entry >>= fun
    | .error e => .done (.error e)
    | .ok total => loop total rest

/-- A loop over records makes the calls of its steps. -/
theorem IsLoop.requests {Entry : Type} {step : Nat → Entry → TarProgram (Result Nat)}
    {loop : Nat → List Entry → TarProgram (Result Unit)} (isLoop : IsLoop step loop)
    {allowed : TarOp → Prop} {records : List String × Option (List UInt8) → Entry → Prop}
    {visited : List (List String × Option (List UInt8))} {read : List Entry}
    (areRecords : List.Forall₂ records visited read)
    (each : ∀ path ∈ visited, ∀ entry, records path entry → ∀ total,
      Requests allowed (step total entry)) (total : Nat) :
    Requests allowed (loop total read) := by
  induction areRecords generalizing total with
  | nil =>
      rw [isLoop.nil]
      trivial
  | @cons path entry visited read first _ ih =>
      obtain ⟨here, others⟩ := List.forall_mem_cons.mp each
      rw [isLoop.cons]
      refine (here entry first total).bind fun value => ?_
      cases value with
      | error e => trivial
      | ok total => exact ih others total

variable {inner : List String → Prop} {dest : Path} {limit : UInt64} {above : List String}
  {name : String} {kind : Option (List UInt8)}

end Loops

/-- An empty directory that its owner may search and write, on a way that may be searched; the
working directory is not below it. -/
structure ReadyDirectory (disk : ModeDisk) (current : Location) (dest : Path)
    (location : Location) : Prop where
  isEmpty : EmptyDirectory disk.plain current dest location
  isOpen : disk.Open location
  way : ∀ place ∈ lookups current dest, disk.Allows searchBit place
  outside : ∀ names, names ≠ [] → current ≠ location ++ names

/-- A way through directories that are there leads through nothing below an empty one. -/
theorem apart_of_empty {plain : PlainDisk} {current location reached : Location} {path : Path}
    (isEmpty : ∀ below, below ≠ [] → plain.node (location ++ below) = none)
    (outside : ∀ names, names ≠ [] → current ≠ location ++ names)
    (follows : plain.follow current path = some reached) : Apart current path location := by
  induction path generalizing current with
  | nil => exact nofun
  | cons component path ih =>
      cases component with
      | drive name => cases follows
      | rootDir =>
          refine ih (fun names isSome isRoot => isSome ?_) follows
          exact (List.append_eq_nil_iff.mp isRoot.symm).2
      | curDir => exact List.forall_mem_cons.mpr ⟨outside, ih outside follows⟩
      | parentDir =>
          refine List.forall_mem_cons.mpr ⟨outside, ih (fun names isSome isParent => ?_) follows⟩
          rcases List.eq_nil_or_concat' current with rfl | ⟨above, name, rfl⟩
          · exact isSome (List.append_eq_nil_iff.mp isParent.symm).2
          · rw [List.dropLast_concat] at isParent
            refine outside (names ++ [name]) (List.concat_ne_nil name names) ?_
            rw [isParent, List.append_assoc]
      | normal name =>
          rw [PlainDisk.follow] at follows
          split_ifs at follows with isDirectory
          refine List.forall_mem_cons.mpr ⟨outside, ih (fun names isSome isBelow => ?_) follows⟩
          rw [isBelow, isEmpty names isSome] at isDirectory
          cases isDirectory

/-- The way to a ready directory leads through nothing below it. -/
theorem ReadyDirectory.apart {disk : ModeDisk} {current location : Location} {dest : Path}
    (ready : ReadyDirectory disk current dest location) : Apart current dest location :=
  apart_of_empty ready.isEmpty.isEmpty ready.outside ready.isEmpty.follows

/-- There the way is open, for there is nothing below yet that could refuse. -/
theorem ReadyDirectory.admits {disk : ModeDisk} {current location : Location} {dest : Path}
    (ready : ReadyDirectory disk current dest location) (inner : List String → Prop) :
    Admits inner current dest location disk := by
  refine ⟨ready.way, fun names _ => ?_⟩
  by_cases isRoot : names = []
  · rw [isRoot, List.append_nil]
    exact ready.isOpen
  · have absent := ready.isEmpty.isEmpty names isRoot
    have allows (bit : Nat) : disk.Allows bit (location ++ names) := fun isDirectory =>
      nomatch absent.symm.trans isDirectory
    exact ⟨allows searchBit, allows writeBit⟩

end AltairRs.Compress
