import AltairRs.Compress.Gzip
import AltairRs.Compress.UnsafeArchives
import AltairRs.Compress.ZipRoundTrip

/-!
# The byte caps of zip and gzip

When no call fails, a zip archive of safe entries, or a gzip stream, is refused exactly if
its bytes pass the cap, whatever the cap and however the bytes are split among the
entries. A refused one has been written up to one byte over the cap at most; any other is
written whole.
-/

namespace AltairRs.Compress

open Effect Unix

/-- The files in the order of their creation, each with what has been copied into it. -/
abbrev Written := List (Path × List UInt8)

/-- No call fails. -/
def neverFails : Handler tarSignature Written
  | written, .openArchive | written, .createDirAll _ | written, .unpack _ _ => (.ok (), written)
  | written, .createFile path => (.ok written.length, written ++ [(path, [])])
  | written, .copy file bytes =>
      (.ok bytes.length, written.modify file fun entry => (entry.1, entry.2 ++ bytes))

/-- The bytes of some files. -/
def Written.size (files : Written) : Nat := (files.map fun entry => entry.2.length).sum

/-- A program that is to write some files keeps a cap: it is refused exactly if they pass
the cap, and is then at most a byte over it; otherwise it writes them whole. -/
structure ObeysCap (limit : UInt64) (kind : String) (program : TarProgram (Result Unit))
    (files : Written) : Prop where
  refused_iff : (neverFails.eval program []).value =
      .error (.decompressionLimit limit.toNat kind) ↔ limit.toNat < files.size
  written : Written.size (neverFails.eval program []).state ≤ min files.size (limit.toNat + 1)
  whole : files.size ≤ limit.toNat → (neverFails.eval program []).value = .ok () ∧
    (neverFails.eval program []).state = files

/-- A zip entry is safe, and goes to a path: as a file with its bytes, or as a directory. -/
def ZipEntry.GoesTo (dest : Path) (entry : ZipEntry) (placed : Path × Option (List UInt8)) : Prop :=
  zipDestination dest entry = .ok placed.1 ∧
    placed.2 = if entry.isDir then none else some entry.data

/-- The files among what is placed. -/
def filesOf (placed : List (Path × Option (List UInt8))) : Written :=
  placed.filterMap fun entry => entry.2.map (entry.1, ·)

variable {limit : UInt64} {dest : Path}

@[simp] theorem filesOf_directory (path : Path) (rest : List (Path × Option (List UInt8))) :
    filesOf ((path, none) :: rest) = filesOf rest := rfl

@[simp] theorem filesOf_file (path : Path) (data : List UInt8)
    (rest : List (Path × Option (List UInt8))) :
    filesOf ((path, some data) :: rest) = (path, data) :: filesOf rest := rfl

/-- The size of what is placed is that of its files. -/
theorem size_filesOf (placed : List (Path × Option (List UInt8))) :
    (filesOf placed).size = entriesSize placed := by
  induction placed with
  | nil => rfl
  | cons entry rest ih =>
      obtain ⟨path, data⟩ := entry
      cases data with
      | none => exact ih
      | some data => exact congrArg (data.length + ·) ih

/-- Nothing is made up. -/
theorem unzipped_size_le {κ : Type} (limit : UInt64) (total : Nat)
    (entries : List (κ × Option (List UInt8))) :
    entriesSize (unzipped limit total entries).1 ≤ entriesSize entries := by
  induction entries generalizing total with
  | nil => exact Nat.le_refl _
  | cons entry rest ih =>
      obtain ⟨path, kind⟩ := entry
      cases kind with
      | none => exact ih total
      | some data =>
          have isCut := List.length_take_le' (saturatingAdd (limit.toNat - total) 1) data
          simp only [unzipped]
          split_ifs with isOver
          · simp only [entriesSize_file, entriesSize_nil]
            omega
          · have later := ih (saturatingAdd total
              (data.take (saturatingAdd (limit.toNat - total) 1)).length)
            simp only [entriesSize_file]
            omega

/-- Below `u64::MAX`, at most one byte over the cap is left. -/
theorem unzipped_size_le_limit {κ : Type} (below : limit.toNat < 2 ^ 64 - 1) (total : Nat)
    (entries : List (κ × Option (List UInt8))) (within : total ≤ limit.toNat) :
    total + entriesSize (unzipped limit total entries).1 ≤ limit.toNat + 1 := by
  induction entries generalizing total with
  | nil => exact within.trans (Nat.le_succ _)
  | cons entry rest ih =>
      obtain ⟨path, kind⟩ := entry
      cases kind with
      | none => exact ih total within
      | some data =>
          have isNext : saturatingAdd total
              (data.take (saturatingAdd (limit.toNat - total) 1)).length =
              total + (data.take (saturatingAdd (limit.toNat - total) 1)).length ∧
              total + (data.take (saturatingAdd (limit.toNat - total) 1)).length ≤
                limit.toNat + 1 := by
            rw [List.length_take]
            unfold saturatingAdd
            omega
          simp only [unzipped, isNext.1]
          split_ifs with isOver
          · simp only [entriesSize_file, entriesSize_nil]
            omega
          · have later := ih _ (Nat.not_lt.mp isOver)
            simp only [entriesSize_file]
            omega

/-- Bytes are copied into the file created last. -/
theorem neverFails_copy (written : Written) (path : Path) (bytes : List UInt8) :
    neverFails (written ++ [(path, [])]) (.copy written.length bytes) =
      (.ok bytes.length, written ++ [(path, bytes)]) := by
  have isLast : (written ++ [(path, [])]).modify written.length
      (fun entry => (entry.1, entry.2 ++ bytes)) = written ++ [(path, bytes)] :=
    List.modifyTailIdx_add _ 0 written _
  rw [neverFails, isLast]

/-- A file is copied up to one byte over the cap. -/
theorem copyBounded_writes (kind : String) (limit : UInt64) (total : Nat) (data : List UInt8)
    (safeDest : Path) (written : Written) :
    let bounded := data.take (saturatingAdd (limit.toNat - total) 1)
    neverFails.Gives (copyBounded kind limit total data safeDest) written
      (if limit.toNat < saturatingAdd total bounded.length then
        .error (.decompressionLimit limit.toNat kind)
      else
        .ok (saturatingAdd total bounded.length))
      (written ++ [(safeDest, bounded)]) := by
  intro bounded
  have isMade : neverFails.Gives (createParents safeDest) written (.ok ()) written := by
    unfold createParents
    cases parent safeDest with
    | none => exact .done _
    | some above => exact .perform rfl
  refine .bind isMade (.bind (.perform rfl) (.bind (.perform (neverFails_copy ..)) ?_))
  simp only
  split_ifs
  · exact .done _
  · exact .done _

/-- An entry that goes somewhere is made there. -/
theorem unzipEntry_of_destination {entry : ZipEntry} {path : Path} (limit : UInt64) (total : Nat)
    (goes : zipDestination dest entry = .ok path) :
    unzipEntry dest limit total entry =
      if entry.isDir then do
        match ← createDirAll path with
        | .error e => return .error (.io e)
        | .ok _ => return .ok total
      else
        copyBounded "zip-entry" limit total entry.data path := by
  unfold zipDestination at goes
  unfold unzipEntry
  cases isEnclosed : entry.enclosedName with
  | none =>
      rw [isEnclosed] at goes
      cases goes
  | some entryPath =>
      have isResolved : resolve dest entryPath = .ok path := by rwa [isEnclosed] at goes
      dsimp only
      generalize resolve dest entryPath = resolved at isResolved ⊢
      cases isResolved
      rfl

/-- The loop writes the files of the entries, as far as the cap lets it. -/
theorem unzipLoop_writes {entries : List ZipEntry} {placed : List (Path × Option (List UInt8))}
    (areSafe : List.Forall₂ (ZipEntry.GoesTo dest) entries placed) (total : Nat)
    (written : Written) :
    neverFails.Gives (unzipLoop dest limit total (entries.map .ok)) written
      (ending limit (unzipped limit total placed).2)
      (written ++ filesOf (unzipped limit total placed).1) := by
  induction areSafe generalizing total written with
  | nil =>
      rw [unzipped, filesOf, List.filterMap_nil, List.append_nil]
      exact .done _
  | @cons entry place entries placed isSafe _ ih =>
      obtain ⟨path, content⟩ := place
      obtain ⟨goes, isContent⟩ := isSafe
      simp only at goes isContent
      have isEntry := unzipEntry_of_destination limit total goes
      cases isDir : entry.isDir with
      | true =>
          rw [isDir, if_pos rfl] at isContent isEntry
          subst isContent
          have entered : neverFails.Gives (unzipEntry dest limit total entry) written
              (.ok total) written := by
            rw [isEntry]
            exact .bind (.perform rfl) (.done _)
          exact .bind entered (ih total written)
      | false =>
          rw [isDir, if_neg Bool.false_ne_true] at isContent isEntry
          subst isContent
          let bounded := entry.data.take (saturatingAdd (limit.toNat - total) 1)
          have entered : neverFails.Gives (unzipEntry dest limit total entry) written
              (if limit.toNat < saturatingAdd total bounded.length then
                .error (.decompressionLimit limit.toNat "zip-entry")
              else
                .ok (saturatingAdd total bounded.length))
              (written ++ [(path, bounded)]) := by
            rw [isEntry]
            exact copyBounded_writes "zip-entry" limit total entry.data path written
          by_cases exceeds : limit.toNat < saturatingAdd total bounded.length
          · have isUnzipped : unzipped limit total ((path, some entry.data) :: placed) =
                ([(path, some bounded)], false) := if_pos exceeds
            rw [if_pos exceeds] at entered
            rw [isUnzipped]
            exact .bind entered (.done _)
          · have isUnzipped : unzipped limit total ((path, some entry.data) :: placed) =
                ((path, some bounded) ::
                  (unzipped limit (saturatingAdd total bounded.length) placed).1,
                  (unzipped limit (saturatingAdd total bounded.length) placed).2) := if_neg exceeds
            rw [if_neg exceeds] at entered
            rw [isUnzipped, filesOf_file, List.append_cons]
            exact .bind entered (ih _ _)

/-- An archive of safe entries. -/
theorem unzipWithLimit_obeysCap (limit : UInt64) {entries : List ZipEntry}
    {placed : List (Path × Option (List UInt8))}
    (areSafe : List.Forall₂ (ZipEntry.GoesTo dest) entries placed)
    (small : (filesOf placed).size < 2 ^ 64) :
    ObeysCap limit "zip-entry" (unzipWithLimit (.ok (entries.map .ok)) dest limit)
      (filesOf placed) := by
  have gives : neverFails.Gives (unzipWithLimit (.ok (entries.map .ok)) dest limit) []
      (ending limit (unzipped limit 0 placed).2) (filesOf (unzipped limit 0 placed).1) :=
    .bind (.perform rfl) (.bind (.perform rfl) (unzipLoop_writes areSafe 0 []))
  rw [size_filesOf] at small
  by_cases fits : entriesSize placed ≤ limit.toNat
  · have whole := unzipped_of_fits 0 placed (by rwa [Nat.zero_add])
    rw [whole] at gives
    refine ⟨?_, ?_, fun _ => ⟨gives.value_eq, gives.state_eq⟩⟩
    · rw [gives.value_eq, size_filesOf]
      exact ⟨nofun, fun exceeds => absurd fits (Nat.not_le.mpr exceeds)⟩
    · rw [gives.state_eq]
      refine Nat.le_min.mpr ⟨Nat.le_refl _, ?_⟩
      rw [size_filesOf]
      exact fits.trans (Nat.le_succ _)
  · have below : limit.toNat < 2 ^ 64 - 1 := by omega
    have refused := unzipped_of_exceeds below 0 placed (Nat.zero_le _) (by omega)
    have atMost := unzipped_size_le_limit below 0 placed (Nat.zero_le _)
    have noMore := unzipped_size_le limit 0 placed
    rw [refused] at gives
    refine ⟨?_, ?_, fun whole => absurd whole (by rwa [size_filesOf])⟩
    · rw [gives.value_eq, size_filesOf]
      exact ⟨fun _ => Nat.not_le.mp fits, fun _ => rfl⟩
    · rw [gives.state_eq, size_filesOf, size_filesOf]
      omega

/-- A stream. -/
theorem decompressFileWithLimit_obeysCap (limit : UInt64) {stream : List UInt8} (output : Path)
    (small : stream.length < 2 ^ 64) :
    ObeysCap limit "gzip-stream" (decompressFileWithLimit stream output limit)
      [(output, stream)] := by
  have isSize (bytes : List UInt8) : Written.size [(output, bytes)] = bytes.length :=
    Nat.add_zero _
  let bounded := stream.take (saturatingAdd limit.toNat 1)
  have isLength : bounded.length = min (saturatingAdd limit.toNat 1) stream.length :=
    List.length_take
  have gives : neverFails.Gives (decompressFileWithLimit stream output limit) []
      (if limit.toNat < bounded.length then
        .error (.decompressionLimit limit.toNat "gzip-stream")
      else
        .ok ()) [(output, bounded)] := by
    refine .bind (.perform rfl) (.bind (.perform rfl)
      (.bind (.perform (neverFails_copy [] output bounded)) ?_))
    simp only
    split_ifs
    · exact .done _
    · exact .done _
  have isOver : limit.toNat < bounded.length ↔ limit.toNat < stream.length := by
    rw [isLength]
    unfold saturatingAdd
    omega
  refine ⟨?_, ?_, fun fits => ?_⟩
  · rw [gives.value_eq, isSize]
    split_ifs with exceeds
    · exact ⟨fun _ => isOver.mp exceeds, fun _ => rfl⟩
    · exact ⟨nofun, fun exceeding => absurd (isOver.mpr exceeding) exceeds⟩
  · rw [gives.state_eq, isSize, isSize, isLength]
    unfold saturatingAdd
    omega
  · rw [isSize] at fits
    have isWhole : bounded = stream := by
      apply List.take_of_length_le
      unfold saturatingAdd
      omega
    rw [gives.value_eq, gives.state_eq, isWhole, if_neg (Nat.not_lt.mpr fits)]
    exact ⟨rfl, rfl⟩

/-- The caps of zip and gzip are exact. -/
theorem byteCaps_exact (limit : UInt64) :
    (∀ dest entries placed, List.Forall₂ (ZipEntry.GoesTo dest) entries placed →
      (filesOf placed).size < 2 ^ 64 →
        ObeysCap limit "zip-entry" (unzipWithLimit (.ok (entries.map .ok)) dest limit)
          (filesOf placed)) ∧
    (∀ stream output, stream.length < 2 ^ 64 →
      ObeysCap limit "gzip-stream" (decompressFileWithLimit stream output limit)
        [(output, stream)]) :=
  ⟨fun _ _ _ areSafe small => unzipWithLimit_obeysCap limit areSafe small,
    fun _ output small => decompressFileWithLimit_obeysCap limit output small⟩

/-- A directory, and two files below it. -/
def twoFiles : List ZipEntry :=
  [⟨"d/", some [.normal "d"], true, []⟩, ⟨"d/a", some [.normal "d", .normal "a"], false, [1, 2]⟩,
    ⟨"d/b", some [.normal "d", .normal "b"], false, [3]⟩]

/-- Their three bytes pass a cap of two, which one stream of two bytes does not. -/
theorem byteCaps_exact_twoFiles :
    (neverFails.eval (unzipWithLimit (.ok (twoFiles.map .ok)) [.normal "out"] 2) []).value =
        .error (.decompressionLimit 2 "zip-entry") ∧
      (neverFails.eval (decompressFileWithLimit [1, 2] [.normal "out"] 2) []).state =
        [([.normal "out"], [1, 2])] := by
  obtain ⟨zip, gzip⟩ := byteCaps_exact 2
  constructor
  · have areSafe : List.Forall₂ (ZipEntry.GoesTo [.normal "out"]) twoFiles
        [([.normal "out", .normal "d"], none),
          ([.normal "out", .normal "d", .normal "a"], some [1, 2]),
          ([.normal "out", .normal "d", .normal "b"], some [3])] :=
      .cons ⟨rfl, rfl⟩ (.cons ⟨rfl, rfl⟩ (.cons ⟨rfl, rfl⟩ .nil))
    exact (zip _ _ _ areSafe (by decide)).refused_iff.mpr (by decide)
  · exact ((gzip [1, 2] _ (by decide)).whole (by decide)).2

end AltairRs.Compress
