import Mathlib.Algebra.GroupWithZero.Nat
import AltairRs.Compress.Zip
import AltairRs.Data.Forest

/-!
# Zipping a folder

The `zip` crate as a structure: what is relied on is that its reader finds the
items its writer was given, and what it makes of their names. A folder is zipped
item by item in the order of `Forest.entries`.
-/

namespace AltairRs.Compress

open Data Effect Unix

/-- What a `ZipWriter` was given, a directory without data. -/
structure ZipItem where
  name : String
  data : List UInt8 := []
deriving DecidableEq, Repr

/-- The `zip` crate. Its archives keep the items in order with their exact names
and bytes; a directory's name ends in `/`, and a relative name without `..` is
enclosed. A backslash may be taken for a separator. `deflated` is the number of bytes
that a file is compressed to. -/
structure ZipCrate (File : Type) where
  deflated : List UInt8 → Nat
  directoryName : String → String
  isDir : String → Bool
  enclosedName : String → Option Path
  pack : List ZipItem → File
  read : File → ZipContents
  directoryName_eq : ∀ name, name.toList.getLast? ≠ some '/' → '\\' ∉ name.toList →
    directoryName name = name ++ "/"
  isDir_directory : ∀ name, isDir (name ++ "/") = true
  isDir_file : ∀ name, name.toList.getLast? ≠ some '/' → '\\' ∉ name.toList → isDir name = false
  enclosedName_eq : ∀ name, Descends (ofText name) → '\\' ∉ name.toList →
    Char.ofNat 0 ∉ name.toList → enclosedName name = some (ofText name)
  read_pack : ∀ items, read (pack items) = .ok (items.map fun item =>
    .ok ⟨item.name, enclosedName item.name, isDir item.name, item.data⟩)

/-- The entry that is read for an item. -/
def ZipCrate.entry {File : Type} (crate : ZipCrate File) (item : ZipItem) : ZipEntry :=
  ⟨item.name, crate.enclosedName item.name, crate.isDir item.name, item.data⟩

/-- A path stays below where it starts. -/
def staysBelow : Nat → Path → Bool
  | _, [] => true
  | _, .drive _ :: _ | _, .rootDir :: _ => false
  | depth, .curDir :: rest => staysBelow depth rest
  | depth, .normal _ :: rest => staysBelow (depth + 1) rest
  | 0, .parentDir :: _ => false
  | depth + 1, .parentDir :: rest => staysBelow depth rest

/-- A path that only descends stays below. -/
theorem staysBelow_of_descends {path : Path} (descends : Descends path) (depth : Nat) :
    staysBelow depth path = true := by
  induction path generalizing depth with
  | nil => rfl
  | cons component rest ih =>
      obtain ⟨now, later⟩ := List.forall_mem_cons.mp descends
      cases component with
      | curDir => exact ih later depth
      | normal name => exact ih later (depth + 1)
      | drive | rootDir | parentDir => cases now

/-- The crate with the list of its items for an archive, which compresses nothing. -/
def ZipCrate.listing : ZipCrate (List ZipItem) where
  deflated := List.length
  directoryName name :=
    if name.toList.getLast? = some '/' ∨ name.toList.getLast? = some '\\' then name else name ++ "/"
  isDir name := name.toList.getLast? = some '/' ∨ name.toList.getLast? = some '\\'
  enclosedName name :=
    if Char.ofNat 0 ∈ name.toList then none
    else if staysBelow 0 (ofText name) then some (ofText name) else none
  pack := id
  read items := .ok (items.map fun item => .ok
    { name := item.name
      enclosedName :=
        if Char.ofNat 0 ∈ item.name.toList then none
        else if staysBelow 0 (ofText item.name) then some (ofText item.name) else none
      isDir := item.name.toList.getLast? = some '/' ∨ item.name.toList.getLast? = some '\\'
      data := item.data })
  directoryName_eq name notSlash noBackslash := by
    have notBackslash : name.toList.getLast? ≠ some '\\' := fun isLast =>
      noBackslash (List.mem_of_getLast? isLast)
    exact if_neg (not_or_intro notSlash notBackslash)
  isDir_directory name := by simp
  isDir_file name notSlash noBackslash := by
    have notBackslash : name.toList.getLast? ≠ some '\\' := fun isLast =>
      noBackslash (List.mem_of_getLast? isLast)
    exact decide_eq_false (not_or_intro notSlash notBackslash)
  enclosedName_eq name descends _ noNul := by
    rw [if_neg noNul, if_pos (staysBelow_of_descends descends 0)]
  read_pack items := rfl

/-- A file name without a backslash. -/
def IsZipName (name : String) : Prop := IsFileName name ∧ '\\' ∉ name.toList

instance (name : String) : Decidable (IsZipName name) := inferInstanceAs (Decidable (_ ∧ _))

/-- A folder of directories and regular files, in the order in which its directories
are listed. Siblings have different names. -/
structure Folder where
  forest : Forest String (List UInt8)
  distinct : forest.Distinct
  areNames : ∀ name ∈ forest.allNames, IsZipName name

/-- What `read_dir` lists in a folder, with nothing damaged. -/
def listingOf : Forest String (List UInt8) → Listing
  | .nil => .done
  | .leaf name content rest => .file name (.ok content) (listingOf rest)
  | .branch name children rest => .directory name (listingOf children) (listingOf rest)

/-- The bytes of all files. -/
def Folder.size (folder : Folder) : Nat := (folder.forest.contents.map List.length).sum

variable {File : Type}

/-- The size past which a file needs the `large_file` option. -/
def zip64BytesThreshold : Nat := 2 ^ 32 - 1

/-- A `ZipWriter` at work: the items so far, whether the last of them is a file that is
being written, and the archive once it is finished. -/
structure Writing (File : Type) where
  items : List ZipItem := []
  writingToFile : Bool := false
  file : Option File := none

/-- The file that is being written can be closed. -/
def Writing.closes (crate : ZipCrate File) (writing : Writing File) : Bool :=
  !writing.writingToFile ||
    writing.items.getLast?.all fun item => crate.deflated item.data ≤ zip64BytesThreshold

/-- Close the file that is being written, and go on. -/
def Writing.closeFile (crate : ZipCrate File) (writing next : Writing File) :
    Except String Unit × Writing File :=
  if writing.closes crate then (.ok (), next)
  else (.error "i/o error: Large file option has not been set", writing)

/-- The calls of a `ZipWriter`. None of its files has the `large_file` option: a write past
the threshold fails and drops the file, and one that is compressed to more cannot be closed. -/
def zipWriter (crate : ZipCrate File) : Handler zipWriteSignature (Writing File)
  | _, .createArchive _ => (.ok (), {})
  | writing, .addDirectory name => writing.closeFile crate { writing with
      items := writing.items ++ [⟨crate.directoryName name, []⟩]
      writingToFile := false }
  | writing, .startFile name => writing.closeFile crate { writing with
      items := writing.items ++ [⟨name, []⟩]
      writingToFile := true }
  | writing, .write bytes =>
      match writing.writingToFile, writing.items.getLast? with
      | true, some last =>
          if (last.data ++ bytes).length ≤ zip64BytesThreshold then
            (.ok bytes.length, { writing with
              items := writing.items.dropLast ++ [{ last with data := last.data ++ bytes }] })
          else
            (.error ⟨"Large file option has not been set"⟩, { writing with
              items := writing.items.dropLast
              writingToFile := false })
      | _, _ => (.error ⟨"No file has been started"⟩, writing)
  | writing, .finish => writing.closeFile crate { writing with
      writingToFile := false
      file := some (crate.pack writing.items) }

/-- Going on means that the file could be closed. -/
theorem Writing.of_closeFile {crate : ZipCrate File} {writing next written : Writing File}
    (closed : writing.closeFile crate next = (.ok (), written)) :
    writing.closes crate = true ∧ written = next := by
  unfold closeFile at closed
  split_ifs at closed with closes
  · exact ⟨closes, (Prod.mk.inj closed).2.symm⟩
  · cases closed

/-- A file can be written without the `large_file` option. -/
structure ZipCrate.Fits (crate : ZipCrate File) (content : List UInt8) : Prop where
  written : content.length ≤ zip64BytesThreshold
  closed : crate.deflated content ≤ zip64BytesThreshold

/-- What is added for a path. -/
def ZipCrate.item (crate : ZipCrate File) : List String × Option (List UInt8) → ZipItem
  | (path, none) => ⟨crate.directoryName (toText (named path)), []⟩
  | (path, some data) => ⟨toText (named path), data⟩

variable {crate : ZipCrate File}

/-- A file that fits is added whole, and can be closed. -/
theorem addFile_gives (relative : String) {bytes : List UInt8} {writing : Writing File}
    (closes : writing.closes crate = true) (fits : crate.Fits bytes) :
    ∃ written, (zipWriter crate).Gives (addFile relative (.ok bytes)) writing (.ok ()) written ∧
      written.items = writing.items ++ [⟨relative, bytes⟩] ∧ written.closes crate = true := by
  let started : Writing File :=
    { writing with items := writing.items ++ [⟨relative, []⟩], writingToFile := true }
  let written : Writing File := { started with items := writing.items ++ [⟨relative, bytes⟩] }
  have isStarted : zipWriter crate writing (.startFile relative) = (.ok (), started) :=
    if_pos closes
  have isWritten : zipWriter crate started (.write bytes) = (.ok bytes.length, written) := by
    simp [zipWriter, started, written, fits.written]
  refine ⟨written, .bind (.perform isStarted) (.bind (.perform isWritten) (.done _)), rfl, ?_⟩
  simp [Writing.closes, written, fits.closed]

/-- A file that was added is small enough, and what was written before it could be closed.
If it can be closed too, it fits. -/
theorem addFile_of_gives {relative : String} {bytes : List UInt8} {writing written : Writing File}
    (gives : (zipWriter crate).Gives (addFile relative (.ok bytes)) writing (.ok ()) written) :
    writing.closes crate = true ∧ (written.closes crate = true → crate.Fits bytes) := by
  obtain ⟨response, started, starts, gives⟩ := gives.of_bind
  cases response with
  | error e => cases gives.value_eq
  | ok _ =>
      obtain ⟨closes, rfl⟩ := Writing.of_closeFile starts.of_perform
      obtain ⟨response, last, writes, gives⟩ := gives.of_bind
      have isWritten := writes.of_perform
      by_cases small : bytes.length ≤ zip64BytesThreshold
      · simp only [zipWriter, List.getLast?_concat, List.nil_append, if_pos small,
          List.dropLast_concat, Prod.mk.injEq] at isWritten
        obtain ⟨rfl, rfl⟩ := isWritten
        obtain rfl := gives.state_eq
        refine ⟨closes, fun closed => ⟨small, ?_⟩⟩
        simpa [Writing.closes, Handler.eval] using closed
      · simp only [zipWriter, List.getLast?_concat, List.nil_append, if_neg small,
          Prod.mk.injEq] at isWritten
        obtain ⟨rfl, -⟩ := isWritten
        cases gives.value_eq

/-- A directory lists its children below its own path. -/
theorem join_named (source : Path) (above : List String) (name : String) :
    join (source ++ named above) [.normal name] = source ++ named (above ++ [name]) := by
  simp [join, named]

/-- The walk adds the entries of a forest in order, if its files fit. -/
theorem walkAndAdd_gives (source : Path) {forest : Forest String (List UInt8)}
    (fits : ∀ content ∈ forest.contents, crate.Fits content) (above : List String)
    {writing : Writing File} (closes : writing.closes crate = true) :
    ∃ written, (zipWriter crate).Gives
        (walkAndAdd source (source ++ named above) (listingOf forest)) writing (.ok ()) written ∧
      written.items = writing.items ++ (forest.entries above).map crate.item ∧
      written.closes crate = true := by
  induction forest generalizing above writing with
  | nil => exact ⟨writing, .done _, by rw [Forest.entries, List.map_nil, List.append_nil], closes⟩
  | leaf name content rest ih =>
      obtain ⟨fitsHere, fitsRest⟩ := List.forall_mem_cons.mp fits
      obtain ⟨added, adds, isAdded, addedCloses⟩ :=
        addFile_gives (toText (named (above ++ [name]))) closes fitsHere
      obtain ⟨written, walks, isWritten, writtenCloses⟩ := ih fitsRest above addedCloses
      refine ⟨written, ?_, ?_, writtenCloses⟩
      · rw [listingOf, walkAndAdd, join_named, relativeText_append]
        exact .bind adds walks
      · rw [isWritten, isAdded, List.append_assoc]
        rfl
  | branch name children rest ihChildren ihRest =>
      obtain ⟨fitsChildren, fitsRest⟩ := List.forall_mem_append.mp fits
      let directory : Writing File := { writing with
        items := writing.items ++ [⟨crate.directoryName (toText (named (above ++ [name]))), []⟩]
        writingToFile := false }
      have isMade : zipWriter crate writing (.addDirectory (toText (named (above ++ [name])))) =
          (.ok (), directory) := if_pos closes
      obtain ⟨inside, walksInside, isInside, insideCloses⟩ :=
        @ihChildren fitsChildren (above ++ [name]) directory rfl
      obtain ⟨written, walks, isWritten, writtenCloses⟩ := ihRest fitsRest above insideCloses
      refine ⟨written, ?_, ?_, writtenCloses⟩
      · rw [listingOf, walkAndAdd, join_named, relativeText_append]
        exact .bind (.perform isMade) (.bind walksInside walks)
      · rw [isWritten, isInside, Forest.entries, List.map_cons, List.map_append]
        simp [directory, ZipCrate.item]

/-- Where the walk succeeds and its last file can be closed, all files fit. -/
theorem walkAndAdd_of_gives {source : Path} {forest : Forest String (List UInt8)}
    {above : List String} {writing written : Writing File}
    (gives : (zipWriter crate).Gives
      (walkAndAdd source (source ++ named above) (listingOf forest)) writing (.ok ()) written)
    (closes : written.closes crate = true) :
    writing.closes crate = true ∧ ∀ content ∈ forest.contents, crate.Fits content := by
  induction forest generalizing above writing written with
  | nil =>
      obtain rfl : writing = written := gives.state_eq
      exact ⟨closes, nofun⟩
  | leaf name content rest ih =>
      rw [listingOf, walkAndAdd, join_named, relativeText_append] at gives
      obtain ⟨response, added, adds, gives⟩ := gives.of_bind
      cases response with
      | error e => cases gives.value_eq
      | ok _ =>
          obtain ⟨addedCloses, fitsRest⟩ := ih gives closes
          obtain ⟨closesHere, fitsHere⟩ := addFile_of_gives adds
          exact ⟨closesHere, List.forall_mem_cons.mpr ⟨fitsHere addedCloses, fitsRest⟩⟩
  | branch name children rest ihChildren ihRest =>
      rw [listingOf, walkAndAdd, join_named, relativeText_append] at gives
      obtain ⟨response, directory, makes, gives⟩ := gives.of_bind
      cases response with
      | error e => cases gives.value_eq
      | ok _ =>
          obtain ⟨closesHere, rfl⟩ := Writing.of_closeFile makes.of_perform
          obtain ⟨response, inside, walksInside, gives⟩ := gives.of_bind
          cases response with
          | error e => cases gives.value_eq
          | ok _ =>
              obtain ⟨insideCloses, fitsRest⟩ := ihRest gives closes
              obtain ⟨-, fitsChildren⟩ := ihChildren walksInside insideCloses
              exact ⟨closesHere, List.forall_mem_append.mpr ⟨fitsChildren, fitsRest⟩⟩

/-- Zipping a folder whose files fit packs its entries. -/
theorem zipDir_gives (source output : Path) {folder : Folder}
    (fits : ∀ content ∈ folder.forest.contents, crate.Fits content) (writing : Writing File) :
    ∃ written, (zipWriter crate).Gives (zipDir source output (some (listingOf folder.forest)))
        writing (.ok ()) written ∧
      written.file = some (crate.pack ((folder.forest.entries []).map crate.item)) := by
  obtain ⟨walked, walks, isWalked, closes⟩ :=
    @walkAndAdd_gives File crate source folder.forest fits [] {} rfl
  rw [named, List.map_nil, List.append_nil] at walks
  have isFinished : zipWriter crate walked .finish = (.ok (), { walked with
      writingToFile := false, file := some (crate.pack walked.items) }) := if_pos closes
  refine ⟨_, .bind (.perform rfl) (.bind walks (.bind (.perform isFinished) (.done _))), ?_⟩
  rw [isWalked]
  rfl

/-- Only such a folder can be zipped. -/
theorem zipDir_of_gives {source output : Path} {folder : Folder} {writing written : Writing File}
    (gives : (zipWriter crate).Gives (zipDir source output (some (listingOf folder.forest)))
      writing (.ok ()) written) : ∀ content ∈ folder.forest.contents, crate.Fits content := by
  obtain ⟨response, created, creates, gives⟩ := gives.of_bind
  obtain ⟨rfl, rfl⟩ := Prod.mk.inj creates.of_perform
  obtain ⟨response, walked, walks, gives⟩ := gives.of_bind
  cases response with
  | error e => cases gives.value_eq
  | ok _ =>
      obtain ⟨response, finished, finishes, gives⟩ := gives.of_bind
      cases response with
      | error e => cases gives.value_eq
      | ok _ =>
          have closes := (Writing.of_closeFile finishes.of_perform).1
          have atRoot : source ++ named [] = source := List.append_nil source
          have walksAtRoot : (zipWriter crate).Gives
              (walkAndAdd source (source ++ named []) (listingOf folder.forest)) {} (.ok ())
              walked := by
            rwa [atRoot]
          exact (walkAndAdd_of_gives walksAtRoot closes).2

/-- The text of a path of archivable names has no backslash, no NUL, and no separator
at its end. -/
theorem IsZipName.toText {above : List String} {name : String}
    (areNames : ∀ other ∈ above ++ [name], IsZipName other) :
    let text := toText (named (above ++ [name]))
    text.toList.getLast? ≠ some '/' ∧ '\\' ∉ text.toList ∧ Char.ofNat 0 ∉ text.toList := by
  have isName := areNames name (List.mem_append_right _ List.mem_cons_self)
  refine ⟨fun isLast => ?_, fun inText => ?_, fun inText => ?_⟩
  · rw [getLast?_toText above isName.1.nonempty] at isLast
    exact isName.1.noSeparator (List.mem_of_getLast? isLast)
  · rcases mem_toText inText with isSlash | ⟨other, isOther, inName⟩
    · cases isSlash
    · exact (areNames other isOther).2 inName
  · rcases mem_toText inText with isSlash | ⟨other, isOther, inName⟩
    · cases isSlash
    · exact (areNames other isOther).1.noNul inName

/-- What is read for an item: its path, its kind and its bytes. -/
theorem ZipCrate.entry_item (crate : ZipCrate File) {above : List String} {name : String}
    (areNames : ∀ other ∈ above ++ [name], IsZipName other) (kind : Option (List UInt8)) :
    crate.entry (crate.item (above ++ [name], kind)) =
      { name := (crate.item (above ++ [name], kind)).name
        enclosedName := some (named (above ++ [name]))
        isDir := kind.isNone
        data := kind.getD [] } := by
  obtain ⟨notSlash, noBackslash, noNul⟩ := IsZipName.toText areNames
  have areFileNames : ∀ other ∈ above ++ [name], IsFileName other := fun other isName =>
    (areNames other isName).1
  have isSome : above ++ [name] ≠ [] := by simp
  have descends : Descends (named (above ++ [name])) := by
    intro component member
    obtain ⟨other, _, rfl⟩ := List.mem_map.mp member
    trivial
  cases kind with
  | none =>
      have isPath := ofText_toText_slash areFileNames isSome
      have isEnclosed := crate.enclosedName_eq (Unix.toText (named (above ++ [name])) ++ "/")
        (by rwa [isPath]) (by simpa using noBackslash) (by simpa using noNul)
      rw [isPath] at isEnclosed
      simp only [entry, item, crate.directoryName_eq _ notSlash noBackslash,
        crate.isDir_directory, isEnclosed]
      rfl
  | some data =>
      have isPath := ofText_toText areFileNames isSome
      have isEnclosed := crate.enclosedName_eq (Unix.toText (named (above ++ [name])))
        (by rwa [isPath]) noBackslash noNul
      rw [isPath] at isEnclosed
      simp only [entry, item, crate.isDir_file _ notSlash noBackslash, isEnclosed]
      rfl

end AltairRs.Compress
