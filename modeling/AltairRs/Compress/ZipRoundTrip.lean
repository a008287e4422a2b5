import AltairRs.Compress.Unzipping

/-!
# The zip round trip

A folder that is zipped and unzipped into an empty directory is restored if the cap
allows its size, and refused if not. A folder with a file of 4 GiB or more cannot be
zipped, as no file is given the `large_file` option. The cap of `u64::MAX` refuses nothing:
the total saturates there, so a folder of more bytes is unzipped short and `Ok`.
-/

namespace AltairRs.Compress

open Data Effect Keyed Unix

/-- A path that leads to an empty directory. -/
structure EmptyDirectory (disk : PlainDisk) (current : Location) (path : Path)
    (location : Location) : Prop where
  follows : disk.follow current path = some location
  isDirectory : disk.node location = some .directory
  isEmpty : ∀ below, below ≠ [] → disk.node (location ++ below) = none

/-- Below the location stands exactly the folder, and elsewhere what stood before. -/
structure Restored (folder : Folder) (location : Location) (before after : PlainDisk) : Prop where
  inside : ∀ path, path ≠ [] →
    after.node (location ++ path) = (folder.forest.find path).map plainNode
  outside : ∀ other, (∀ path, path ≠ [] → other ≠ location ++ path) →
    after.node other = before.node other

/-- Zipping a folder, and unzipping the archive into any empty directory under a cap:
both succeed and restore the folder if its size is within the cap, and unzipping
reports the cap if it is not. -/
def RoundTrips {File : Type} (crate : ZipCrate File) (folder : Folder) (limit : UInt64) : Prop :=
  ∀ (source output dest : Path) (current location : Location) (disk : PlainDisk),
    EmptyDirectory disk current dest location →
      ∃ written file value final,
        (zipWriter crate).Gives (zipDir source output (some (listingOf folder.forest))) {}
          (.ok ()) written ∧
        written.file = some file ∧
        (plainDisk current).Gives (unzipWithLimit (crate.read file) dest limit) disk value final ∧
        (folder.size ≤ limit.toNat → value = .ok () ∧ Restored folder location disk final) ∧
        (limit.toNat < folder.size →
          value = .error (.decompressionLimit limit.toNat "zip-entry"))

variable {κ : Type} {limit : UInt64}

/-- What fits is left whole. -/
theorem unzipped_of_fits (total : Nat) (entries : List (κ × Option (List UInt8)))
    (fits : total + entriesSize entries ≤ limit.toNat) :
    unzipped limit total entries = (entries, true) := by
  induction entries generalizing total with
  | nil => rfl
  | cons entry rest ih =>
      obtain ⟨path, kind⟩ := entry
      have limitBound := limit.toNat_lt
      cases kind with
      | none =>
          rw [entriesSize_directory] at fits
          rw [unzipped, ih total fits]
      | some data =>
          rw [entriesSize_file] at fits
          have whole : data.take (saturatingAdd (limit.toNat - total) 1) = data := by
            apply List.take_of_length_le
            unfold saturatingAdd
            omega
          have isNext : saturatingAdd total data.length = total + data.length := by
            unfold saturatingAdd
            omega
          simp only [unzipped, whole, isNext]
          rw [if_neg (by omega), ih _ (by omega)]

/-- Below `u64::MAX`, what does not fit is refused. -/
theorem unzipped_of_exceeds (below : limit.toNat < 2 ^ 64 - 1) (total : Nat)
    (entries : List (κ × Option (List UInt8))) (within : total ≤ limit.toNat)
    (exceeds : limit.toNat < total + entriesSize entries) :
    (unzipped limit total entries).2 = false := by
  induction entries generalizing total with
  | nil => exact absurd exceeds (by simpa using within)
  | cons entry rest ih =>
      obtain ⟨path, kind⟩ := entry
      cases kind with
      | none =>
          rw [entriesSize_directory] at exceeds
          exact ih total within exceeds
      | some data =>
          rw [entriesSize_file] at exceeds
          simp only [unzipped]
          split_ifs with isOver
          · rfl
          · have isNext : saturatingAdd total
                (data.take (saturatingAdd (limit.toNat - total) 1)).length =
                total + data.length := by
              rw [List.length_take] at isOver ⊢
              unfold saturatingAdd at isOver ⊢
              omega
            rw [isNext] at isOver ⊢
            exact ih _ (Nat.not_lt.mp isOver) (by omega)

/-- At `u64::MAX` nothing is refused. -/
theorem unzipped_of_max (isMax : limit.toNat = 2 ^ 64 - 1) (total : Nat)
    (entries : List (κ × Option (List UInt8))) : (unzipped limit total entries).2 = true := by
  induction entries generalizing total with
  | nil => rfl
  | cons entry rest ih =>
      obtain ⟨path, kind⟩ := entry
      cases kind with
      | none => exact ih total
      | some data =>
          have notOver : ¬ limit.toNat < saturatingAdd total
              (data.take (saturatingAdd (limit.toNat - total) 1)).length := by
            unfold saturatingAdd
            omega
          simp only [unzipped, if_neg notOver]
          exact ih _

/-- Looking a location up among the placed entries looks its path up in the listing. -/
theorem lookup_placeAt (location : Location) (path : List String)
    (entries : List (List String × Option (List UInt8))) :
    (entries.map (placeAt location)).lookup (location ++ path) =
      (entries.lookup path).map plainNode := by
  induction entries with
  | nil => rfl
  | cons entry rest ih =>
      rw [List.map_cons, placeAt, List.lookup_cons, List.lookup_cons, ih]
      by_cases same : path = entry.1
      · simp [same]
      · have here : (path == entry.1) = false := beq_false_of_ne same
        have there : (location ++ path == location ++ entry.1) = false :=
          beq_false_of_ne fun equal => same (List.append_cancel_left equal)
        rw [here, there]

/-- Entering the whole listing into an empty directory restores the folder. -/
theorem restored_of_entered {folder : Folder} {location current : Location} {dest : Path}
    {before after : PlainDisk} (isEmpty : EmptyDirectory before current dest location)
    (entered : after.node =
      enterAll ((folder.forest.entries []).map (placeAt location)) before.node) :
    Restored folder location before after := by
  have distinct : (((folder.forest.entries []).map (placeAt location)).map Prod.fst).Nodup := by
    have injective : Function.Injective fun path : List String => location ++ path :=
      fun _ _ same => List.append_cancel_left same
    have placed := (Forest.rooted_entries folder.distinct).nodup.1.map injective
    rwa [List.map_map] at placed ⊢
  refine ⟨fun path isSome => ?_, fun other outside => ?_⟩
  · have found : (folder.forest.entries []).lookup path = folder.forest.find path :=
      Forest.lookup_entries folder.distinct [] path
    rw [entered, enterAll_apply distinct, lookup_placeAt, found, isEmpty.isEmpty path isSome,
      Option.or_none]
  · rw [entered, enterAll_apply distinct]
    have notPlaced : ((folder.forest.entries []).map (placeAt location)).lookup other = none := by
      refine List.lookup_eq_none_iff.mpr fun placed member => bne_iff_ne.mpr ?_
      rintro rfl
      obtain ⟨entry, isEntry, isPlaced⟩ := List.mem_map.mp member
      obtain ⟨name, _, below⟩ := Forest.exists_name_of_mem_entries isEntry
      have isSome : entry.1 ≠ [] := by
        rintro isNil
        rw [isNil] at below
        exact absurd below.length_le (by simp)
      exact outside entry.1 isSome (congrArg Prod.fst isPlaced.symm)
    rw [notPlaced, Option.none_or]

/-- Unzipping a packed folder into an empty directory runs the loop over its listing. -/
theorem unzipWithLimit_gives {File : Type} (crate : ZipCrate File) (folder : Folder)
    {dest : Path} {current location : Location} {disk : PlainDisk} (limit : UInt64)
    (isEmpty : EmptyDirectory disk current dest location) :
    ∃ final, (plainDisk current).Gives
        (unzipWithLimit (crate.read (crate.pack ((folder.forest.entries []).map crate.item)))
          dest limit) disk
        (ending limit (unzipped limit 0 (folder.forest.entries [])).2) final ∧
      final.node =
        enterAll ((unzipped limit 0 (folder.forest.entries [])).1.map (placeAt location))
          disk.node := by
  have isRead : crate.read (crate.pack ((folder.forest.entries []).map crate.item)) =
      .ok (itemsOf crate (folder.forest.entries [])) := by
    rw [crate.read_pack, List.map_map]
    rfl
  have areNames : ∀ entry ∈ folder.forest.entries [], ∀ name ∈ entry.1, IsZipName name := by
    intro entry member name isName
    rcases Forest.mem_allNames_of_mem_entries member name isName with inRoot | inForest
    · cases inRoot
    · exact folder.areNames name inForest
  have extracting : Extracting current dest location [[]] [] disk := by
    refine ⟨fun above isRoot => ?_, fun path isSome _ => isEmpty.isEmpty path isSome⟩
    rw [List.mem_singleton.mp isRoot, named, List.map_nil, List.append_nil, List.append_nil]
    exact isEmpty.follows
  have isMade : plainDisk current disk (.createDirAll dest) = (.ok (), disk) := by
    simp [plainDisk, PlainDisk.makeDirs_present isEmpty.follows]
  obtain ⟨final, gives, entered⟩ := unzipLoop_gives crate limit
    (Forest.rooted_entries folder.distinct) areNames extracting 0
  refine ⟨final, ?_, entered⟩
  rw [isRead]
  exact .bind (.perform isMade) (.bind (.perform rfl) gives)

/-- The round trip holds exactly if every file fits without the `large_file` option and the
cap is below `u64::MAX` or allows the size. -/
theorem zip_round_trip_iff {File : Type} (crate : ZipCrate File) (folder : Folder)
    (limit : UInt64) :
    RoundTrips crate folder limit ↔
      (∀ content ∈ folder.forest.contents, crate.Fits content) ∧
        (limit.toNat < 2 ^ 64 - 1 ∨ folder.size ≤ limit.toNat) := by
  have isSize : entriesSize (folder.forest.entries []) = folder.size := by
    rw [entriesSize, Forest.filterMap_entries, Folder.size]
  constructor
  · intro trips
    let root : PlainDisk :=
      { node := fun location => if location = [] then some .directory else none }
    have isEmpty : EmptyDirectory root [] [] [] :=
      ⟨rfl, rfl, fun below isSome => if_neg isSome⟩
    obtain ⟨written, file, value, final, zipped, isFile, gives, _, refused⟩ :=
      trips [] [] [] [] [] root isEmpty
    have fits := zipDir_of_gives zipped
    refine ⟨fits, ?_⟩
    by_contra neither
    obtain ⟨notBelow, tooLarge⟩ := not_or.mp neither
    have limitBound := limit.toNat_lt
    obtain ⟨packed, packs, isPacked⟩ := zipDir_gives [] [] fits {}
    obtain ⟨_, rfl⟩ := zipped.unique packs
    obtain rfl := Option.some.inj (isFile.symm.trans isPacked)
    obtain ⟨other, unzips, _⟩ := unzipWithLimit_gives crate folder limit isEmpty
    rw [unzipped_of_max (by omega)] at unzips
    cases (unzips.unique gives).1.trans (refused (Nat.lt_of_not_le tooLarge))
  · rintro ⟨fits, holds⟩ source output dest current location disk isEmpty
    obtain ⟨written, zipped, isFile⟩ := zipDir_gives source output fits {}
    obtain ⟨final, gives, entered⟩ := unzipWithLimit_gives crate folder limit isEmpty
    refine ⟨_, _, _, final, zipped, isFile, gives, fun allows => ?_, fun exceeds => ?_⟩
    · have whole : unzipped limit 0 (folder.forest.entries []) = (folder.forest.entries [], true) :=
        unzipped_of_fits 0 _ (by rwa [Nat.zero_add, isSize])
      rw [whole] at entered ⊢
      exact ⟨rfl, restored_of_entered isEmpty entered⟩
    · have below : limit.toNat < 2 ^ 64 - 1 :=
        holds.resolve_right (Nat.not_le.mpr exceeds)
      rw [unzipped_of_exceeds below 0 _ (Nat.zero_le _) (by rwa [Nat.zero_add, isSize])]
      rfl

/-- A folder of one file. -/
def singleFile (content : List UInt8) : Folder where
  forest := .leaf "a" content .nil
  distinct := by simp [Forest.Distinct, Forest.names]
  areNames := show ∀ name ∈ ["a"], IsZipName name by decide

/-- A file of 4 GiB is not zipped, whatever the cap. -/
theorem singleFile_not_zipped :
    ¬ RoundTrips ZipCrate.listing (singleFile (List.replicate (2 ^ 32) 0)) 8589934592 := by
  rw [zip_round_trip_iff]
  rintro ⟨fits, -⟩
  have written := (fits _ List.mem_cons_self).written
  rw [List.length_replicate] at written
  exact absurd written (by decide)

end AltairRs.Compress
