import AltairRs.Compress.FailingFiles
import AltairRs.Compress.Gzip

/-!
# Recipes that return `Ok` and lose bytes

In every run of a recipe that returns `Ok`, what each file holds is decided by the
drop of its writer: the file holds exactly the bytes that were meant if and only if
that drop lost nothing, and the saturating cap had not cut them before.
-/

namespace AltairRs.Compress

open Effect Io Keyed Unix

/-- A call of one of the recipes, with what its input is read as. -/
inductive Recipe where
  | compressFile (gzip : List UInt8 → List UInt8) (content : List UInt8) (output : Path)
  | decompressFile (stream : List UInt8) (output : Path) (limit : UInt64)
  | tarDir (source output : Path) (archived : Option (List UInt8))
  | untar (archive : Archive) (dest : Path) (limit : UInt64)
  | untarGz (archive : Archive) (dest : Path) (limit : UInt64)
  | unzip (archive : ZipContents) (dest : Path) (limit : UInt64)

def Recipe.program : Recipe → TarProgram (Result Unit)
  | .compressFile gzip content output => Compress.compressFile gzip content output
  | .decompressFile stream output limit => decompressFileWithLimit stream output limit
  | .tarDir source output archived => Compress.tarDir source output archived
  | .untar archive dest limit => untarWithLimit archive dest limit
  | .untarGz archive dest limit => untarGzWithLimit archive dest limit
  | .unzip archive dest limit => unzipWithLimit archive dest limit

/-- The content of a file that `unpack_entries` copies. -/
def tarContent : Except IoError TarEntry → Option (List UInt8)
  | .error _ => none
  | .ok entry => if entry.entryType.isFile then some entry.data else none

/-- The content of a file that `unzip_with_limit` copies. -/
def zipContent : Except String ZipEntry → Option (List UInt8)
  | .error _ => none
  | .ok entry => if entry.isDir then none else some entry.data

/-- The outputs of files copied under a cap, after so many bytes. -/
def boundedOutputs (limit : UInt64) : Nat → List (List UInt8) → List Output
  | _, [] => []
  | total, data :: rest =>
      let bounded := data.take (saturatingAdd (limit.toNat - total) 1)
      ⟨data, bounded⟩ :: boundedOutputs limit (saturatingAdd total bounded.length) rest

/-- What a recipe is to produce, file by file. -/
def Recipe.outputs : Recipe → List Output
  | .compressFile gzip content _ => [⟨gzip content, gzip content⟩]
  | .decompressFile stream _ limit => boundedOutputs limit 0 [stream]
  | .tarDir _ _ archived => archived.toList.map fun bytes => ⟨bytes, bytes⟩
  | .untar archive _ limit | .untarGz archive _ limit =>
      match archive with
      | .error _ => []
      | .ok entries => boundedOutputs limit 0 (entries.filterMap tarContent)
  | .unzip archive _ limit =>
      match archive with
      | .error _ => []
      | .ok entries => boundedOutputs limit 0 (entries.filterMap zipContent)

/-- The cap is below `u64::MAX`, if there is one. -/
def Recipe.BelowMax : Recipe → Prop
  | .compressFile .. | .tarDir .. => True
  | .decompressFile _ _ limit | .untar _ _ limit | .untarGz _ _ limit | .unzip _ _ limit =>
      limit.toNat < 2 ^ 64 - 1

/-- The files are those the recipe is to produce, each with exactly its bytes. -/
def HoldsExactly (recipe : Recipe) (files : Files) : Prop :=
  ∀ file, files.content file = (files.output recipe.outputs file).map Output.data

variable {capacity : Nat} {here final : Files} {before : List Output}
  {events : List (Event tarSignature)} {dest : Path} {limit : UInt64}

/-- Opening the archive changes no file. -/
theorem of_opened {α : Type} {next : TarProgram (Result α)} {value : α}
    (run : Returns (failingFiles capacity)
      (do
        match ← openArchive with
        | .error e => return .error (.io e)
        | .ok _ => next) here events (.ok value) final) :
    ∃ after, Returns (failingFiles capacity) next here after (.ok value) final := by
  obtain ⟨_, _, middle, after, isOpened, openedRun⟩ := Reaches.of_bind_ok run fun _ => ⟨_, rfl⟩
  obtain rfl : middle = here := Reaches.of_perform isOpened
  exact ⟨after, openedRun⟩

/-- Nor does making the destination. -/
theorem of_prepared {α : Type} {next : TarProgram (Result α)} {value : α}
    (run : Returns (failingFiles capacity)
      (do
        match ← createDirAll dest with
        | .error e => return .error (.io e)
        | .ok _ =>
            match ← openArchive with
            | .error e => return .error (.io e)
            | .ok _ => next) here events (.ok value) final) :
    ∃ after, Returns (failingFiles capacity) next here after (.ok value) final := by
  obtain ⟨_, _, middle, _, isMade, madeRun⟩ := Reaches.of_bind_ok run fun _ => ⟨_, rfl⟩
  obtain rfl : middle = here := Reaches.of_perform isMade
  exact of_opened madeRun

/-- A file that is created and copied into is the next output. -/
theorem of_createdCopy {α : Type} {path : Path} {bytes : List UInt8}
    {next : Nat → TarProgram (Result α)} {value : α} (filled : Filled before here)
    (data : List UInt8)
    (run : Returns (failingFiles capacity)
      (do
        match ← createFile path with
        | .error e => return .error (.io e)
        | .ok file =>
            match ← copy file bytes with
            | .error e => return .error (.io e)
            | .ok written => next written) here events (.ok value) final) :
    ∃ after copied, Filled (before ++ [⟨data, bytes⟩]) copied ∧
      Returns (failingFiles capacity) (next bytes.length) copied after (.ok value) final := by
  obtain ⟨_, file, created, _, isCreated, createdRun⟩ :=
    Reaches.of_bind_ok run fun _ => ⟨_, rfl⟩
  obtain ⟨_, written, copied, after, isCopied, copiedRun⟩ :=
    Reaches.of_bind_ok createdRun fun _ => ⟨_, rfl⟩
  obtain rfl : created = here.create file := Reaches.of_perform isCreated
  obtain ⟨isWritten, copies⟩ := Reaches.of_perform isCopied
  obtain rfl : written = bytes.length := isWritten
  exact ⟨after, copied, filled.copy ⟨data, bytes⟩ copies, copiedRun⟩

/-- Making directories changes no file. -/
theorem createParents_unchanged {path : Path} {value : Except IoError Unit}
    (run : Returns (failingFiles capacity) (createParents path) here events value final) :
    final = here := by
  unfold createParents at run
  cases isParent : parent path with
  | none =>
      rw [isParent] at run
      exact run.of_done.2.2
  | some above =>
      rw [isParent] at run
      exact Reaches.of_perform run

/-- Below `u64::MAX`, a copy that stays within the cap is whole. -/
theorem take_eq_of_within {total : Nat} {data : List UInt8} (below : limit.toNat < 2 ^ 64 - 1)
    (within : saturatingAdd total (data.take (saturatingAdd (limit.toNat - total) 1)).length ≤
      limit.toNat) :
    data.take (saturatingAdd (limit.toNat - total) 1) = data := by
  apply List.take_of_length_le
  rw [List.length_take] at within
  unfold saturatingAdd at within ⊢
  omega

/-- A bounded copy is one output, whole below `u64::MAX`, and leaves the total after
it. -/
theorem copyBounded_filled {kind : String} {total next : Nat} {data : List UInt8}
    {safeDest : Path} (filled : Filled before here)
    (run : Returns (failingFiles capacity) (copyBounded kind limit total data safeDest) here events
      (.ok next) final) :
    let bounded := data.take (saturatingAdd (limit.toNat - total) 1)
    next = saturatingAdd total bounded.length ∧ Filled (before ++ [⟨data, bounded⟩]) final ∧
      (limit.toNat < 2 ^ 64 - 1 → bounded = data) := by
  intro bounded
  unfold copyBounded at run
  obtain ⟨_, _, _, _, isMade, madeRun⟩ := Reaches.of_bind_ok run fun _ => ⟨_, rfl⟩
  rw [createParents_unchanged isMade] at madeRun
  obtain ⟨_, _, filled, copiedRun⟩ := of_createdCopy filled data madeRun
  simp only at copiedRun
  split_ifs at copiedRun with exceeds
  · cases copiedRun.of_done.2.1
  · obtain ⟨_, isNext, rfl⟩ := copiedRun.of_done
    cases isNext
    exact ⟨rfl, filled, fun below => take_eq_of_within below (Nat.not_lt.mp exceeds)⟩

/-- What the body of an extraction loop does with an item: its content, if it has
one, is the next output. -/
def ProducesNext {Item : Type} (capacity : Nat) (limit : UInt64)
    (content : Item → Option (List UInt8)) (body : Nat → Item → TarProgram (Result Nat)) : Prop :=
  ∀ total item before here events next final, Filled before here →
    Returns (failingFiles capacity) (body total item) here events (.ok next) final →
    ∀ later, ∃ outputs, Filled (before ++ outputs) final ∧
      (limit.toNat < 2 ^ 64 - 1 → ∀ output ∈ outputs, output.handed = output.data) ∧
      boundedOutputs limit total ((content item).toList ++ later) =
        outputs ++ boundedOutputs limit next later

/-- A loop over such a body leaves the outputs of its items. -/
theorem ProducesNext.loop {Item : Type} {content : Item → Option (List UInt8)}
    {body : Nat → Item → TarProgram (Result Nat)}
    {loop : Nat → List Item → TarProgram (Result Unit)}
    (produces : ProducesNext capacity limit content body)
    (nil : ∀ total, loop total [] = .done (.ok ()))
    (cons : ∀ total item rest, loop total (item :: rest) = body total item >>= fun value =>
      match value with
      | .error e => .done (.error e)
      | .ok next => loop next rest)
    {total : Nat} {items : List Item} (filled : Filled before here)
    (run : Returns (failingFiles capacity) (loop total items) here events (.ok ()) final) :
    Filled (before ++ boundedOutputs limit total (items.filterMap content)) final ∧
      (limit.toNat < 2 ^ 64 - 1 → ∀ output ∈ boundedOutputs limit total (items.filterMap content),
        output.handed = output.data) := by
  induction items generalizing total before here events with
  | nil =>
      rw [nil] at run
      obtain ⟨_, _, rfl⟩ := run.of_done
      exact ⟨by simpa [boundedOutputs] using filled, fun _ => nofun⟩
  | cons item rest ih =>
      rw [cons] at run
      obtain ⟨_, next, _, _, itemRun, restRun⟩ := Reaches.of_bind_ok run fun _ => ⟨_, rfl⟩
      obtain ⟨outputs, itemFilled, itemWhole, isOutputs⟩ :=
        produces _ _ _ _ _ _ _ filled itemRun (rest.filterMap content)
      obtain ⟨restFilled, restWhole⟩ := ih itemFilled restRun
      have isContents : (item :: rest).filterMap content =
          (content item).toList ++ rest.filterMap content := by
        cases isContent : content item <;> simp [isContent]
      rw [isContents, isOutputs, ← List.append_assoc]
      exact ⟨restFilled, fun below =>
        List.forall_mem_append.mpr ⟨itemWhole below, restWhole below⟩⟩

/-- A regular tar entry is the next output; no other entry is one. -/
theorem unpackEntry_produces (dest : Path) (limit : UInt64) :
    ProducesNext capacity limit tarContent fun total item =>
      match item with
      | .error e => return .error (.io e)
      | .ok entry => unpackEntry dest limit total entry := by
  intro total item before here events next final filled run later
  cases item with
  | error e => cases run.of_done.2.1
  | ok entry =>
      simp only [unpackEntry] at run
      cases checked : checkEntry dest entry with
      | error e =>
          rw [checked] at run
          cases run.of_done.2.1
      | ok safeDest =>
          rw [checked] at run
          by_cases isFile : entry.entryType.isFile
          · simp only [isFile, if_true, unpackRegular_eq] at run
            obtain ⟨rfl, filled, whole⟩ := copyBounded_filled filled run
            exact ⟨_, filled, fun below => List.forall_mem_singleton.mpr (whole below),
              by simp [tarContent, isFile, boundedOutputs]⟩
          · simp only [isFile] at run
            obtain ⟨_, _, _, _, isUnpacked, unpackedRun⟩ :=
              Reaches.of_bind_ok run fun _ => ⟨_, rfl⟩
            obtain ⟨_, isNext, rfl⟩ := unpackedRun.of_done
            cases isNext
            obtain rfl : _ = here := Reaches.of_perform isUnpacked
            exact ⟨[], by rwa [List.append_nil], fun _ => nofun, by simp [tarContent, isFile]⟩

/-- A zip entry that is no directory is the next output. -/
theorem unzipEntry_produces (dest : Path) (limit : UInt64) :
    ProducesNext capacity limit zipContent fun total item =>
      match item with
      | .error e => return .error (.zip e)
      | .ok entry => unzipEntry dest limit total entry := by
  intro total item before here events next final filled run later
  cases item with
  | error e => cases run.of_done.2.1
  | ok entry =>
      simp only [unzipEntry] at run
      cases isEnclosed : entry.enclosedName with
      | none =>
          rw [isEnclosed] at run
          cases run.of_done.2.1
      | some entryPath =>
          rw [isEnclosed] at run
          cases isResolved : resolve dest entryPath with
          | error e =>
              simp only [isResolved] at run
              cases run.of_done.2.1
          | ok safeDest =>
              simp only [isResolved] at run
              by_cases isDir : entry.isDir
              · simp only [isDir, if_true] at run
                obtain ⟨_, _, _, _, isMade, madeRun⟩ := Reaches.of_bind_ok run fun _ => ⟨_, rfl⟩
                obtain ⟨_, isNext, rfl⟩ := madeRun.of_done
                cases isNext
                obtain rfl : _ = here := Reaches.of_perform isMade
                exact ⟨[], by rwa [List.append_nil], fun _ => nofun,
                  by simp [zipContent, isDir]⟩
              · simp only [isDir] at run
                obtain ⟨rfl, filled, whole⟩ := copyBounded_filled filled run
                exact ⟨_, filled, fun below => List.forall_mem_singleton.mpr (whole below),
                  by simp [zipContent, isDir, boundedOutputs]⟩

/-- An extraction that returns `Ok` leaves the outputs of a tar archive. -/
theorem untarWithLimit_filled {archive : Archive}
    (run : Returns (failingFiles capacity) (untarWithLimit archive dest limit) {} events (.ok ())
      final) :
    Filled (Recipe.untar archive dest limit).outputs final ∧
      ((Recipe.untar archive dest limit).BelowMax →
        ∀ output ∈ (Recipe.untar archive dest limit).outputs, output.handed = output.data) := by
  obtain ⟨_, openedRun⟩ := of_prepared run
  cases archive with
  | error e => cases openedRun.of_done.2.1
  | ok items =>
      refine (unpackEntry_produces dest limit).loop (fun _ => rfl) (fun total item rest => ?_)
        filled_none openedRun
      cases item <;> rfl

/-- And one of a zip archive the outputs of that. -/
theorem unzipWithLimit_filled {archive : ZipContents}
    (run : Returns (failingFiles capacity) (unzipWithLimit archive dest limit) {} events (.ok ())
      final) :
    Filled (Recipe.unzip archive dest limit).outputs final ∧
      ((Recipe.unzip archive dest limit).BelowMax →
        ∀ output ∈ (Recipe.unzip archive dest limit).outputs, output.handed = output.data) := by
  obtain ⟨_, openedRun⟩ := of_prepared run
  cases archive with
  | error e => cases openedRun.of_done.2.1
  | ok items =>
      refine (unzipEntry_produces dest limit).loop (fun _ => rfl) (fun total item rest => ?_)
        filled_none openedRun
      cases item <;> rfl

/-- A recipe that returns `Ok` leaves its outputs, whole below `u64::MAX`. -/
theorem Recipe.filled {recipe : Recipe}
    (run : Returns (failingFiles capacity) recipe.program {} events (.ok ()) final) :
    Filled recipe.outputs final ∧
      (recipe.BelowMax → ∀ output ∈ recipe.outputs, output.handed = output.data) := by
  cases recipe with
  | compressFile gzip content output =>
      obtain ⟨_, openedRun⟩ := of_opened run
      obtain ⟨_, _, filled, copiedRun⟩ := of_createdCopy filled_none (gzip content) openedRun
      obtain ⟨_, _, rfl⟩ := copiedRun.of_done
      exact ⟨filled, fun _ => List.forall_mem_singleton.mpr rfl⟩
  | decompressFile stream output limit =>
      obtain ⟨_, openedRun⟩ := of_opened run
      obtain ⟨_, _, filled, copiedRun⟩ := of_createdCopy filled_none stream openedRun
      split_ifs at copiedRun with exceeds
      · cases copiedRun.of_done.2.1
      · obtain ⟨_, _, rfl⟩ := copiedRun.of_done
        refine ⟨filled, fun below => List.forall_mem_singleton.mpr ?_⟩
        have within := Nat.not_lt.mp exceeds
        exact take_eq_of_within below
          ((Nat.min_le_left _ _).trans (by rwa [Nat.zero_add]))
  | tarDir source output archived =>
      cases archived with
      | none => cases run.of_done.2.1
      | some bytes =>
          obtain ⟨_, _, filled, copiedRun⟩ := of_createdCopy filled_none bytes run
          obtain ⟨_, _, rfl⟩ := copiedRun.of_done
          exact ⟨filled, fun _ => List.forall_mem_singleton.mpr rfl⟩
  | untar archive dest limit => exact untarWithLimit_filled run
  | untarGz archive dest limit => exact untarWithLimit_filled run
  | unzip archive dest limit => exact unzipWithLimit_filled run

/-- What is handed to a writer is a front of what is meant. -/
theorem Recipe.handed_prefix {recipe : Recipe} : ∀ output ∈ recipe.outputs,
    output.handed <+: output.data := by
  have bounded : ∀ (limit : UInt64) (total : Nat) (datas : List (List UInt8)),
      ∀ output ∈ boundedOutputs limit total datas, output.handed <+: output.data := by
    intro limit total datas
    induction datas generalizing total with
    | nil => exact nofun
    | cons data rest ih =>
        exact List.forall_mem_cons.mpr ⟨List.take_prefix _ _, ih _⟩
  cases recipe with
  | compressFile gzip content output =>
      exact List.forall_mem_singleton.mpr List.prefix_rfl
  | decompressFile stream output limit => exact bounded limit 0 [stream]
  | tarDir source output archived =>
      cases archived with
      | none => exact nofun
      | some bytes => exact List.forall_mem_singleton.mpr List.prefix_rfl
  | untar archive dest limit | untarGz archive dest limit | unzip archive dest limit =>
      cases archive with
      | error e => exact nofun
      | ok items => exact bounded limit 0 _

/-- Files that are filled hold what they should exactly if none of them lost bytes when
its writer was dropped, or was cut before by the cap. -/
theorem Filled.holdsExactly_iff {recipe : Recipe} (filled : Filled recipe.outputs final) :
    HoldsExactly recipe final ↔ ∀ file output,
      final.output recipe.outputs file = some output →
        final.lost file = false ∧ output.handed = output.data := by
  constructor
  · intro isExact file output isOutput
    have isFront := Recipe.handed_prefix output (Files.mem_of_output isOutput)
    have holds := filled.holds file
    rw [isOutput, isExact file, isOutput, Option.map_some] at holds
    generalize final.lost file = isLost at holds ⊢
    generalize output.data = data at holds isFront ⊢
    cases holds with
    | kept => exact ⟨rfl, rfl⟩
    | cut isPrefix isShorter =>
        exact absurd (isPrefix.eq_of_length_le isFront.length_le) isShorter
  · intro whole file
    have holds := filled.holds file
    generalize final.content file = content at holds ⊢
    cases isOutput : final.output recipe.outputs file with
    | none =>
        rw [isOutput] at holds
        cases holds
        rfl
    | some output =>
        obtain ⟨notLost, isWhole⟩ := whole file output isOutput
        rw [isOutput, notLost] at holds
        cases holds
        rw [isWhole]
        rfl

/-- A recipe that returns `Ok` has filled its files exactly if no drop lost bytes of a
file and the cap cut none. -/
theorem ok_holdsExactly_iff (capacity : Nat) (recipe : Recipe)
    (run : Returns (failingFiles capacity) recipe.program {} events (.ok ()) final) :
    HoldsExactly recipe final ↔ ∀ file output,
      final.output recipe.outputs file = some output →
        final.lost file = false ∧ output.handed = output.data :=
  (Recipe.filled run).1.holdsExactly_iff

/-- Below `u64::MAX` the drops alone decide. -/
theorem ok_holdsExactly_of_belowMax {recipe : Recipe} (below : recipe.BelowMax)
    (run : Returns (failingFiles capacity) recipe.program {} events (.ok ()) final)
    (notLost : ∀ file, final.lost file = false) : HoldsExactly recipe final := by
  obtain ⟨filled, whole⟩ := Recipe.filled run
  exact filled.holdsExactly_iff.mpr fun file output isOutput =>
    ⟨notLost file, whole below output (Files.mem_of_output isOutput)⟩

/-- What a `GzEncoder` writes for an empty file. -/
def emptyGzip : List UInt8 :=
  [0x1f, 0x8b, 8, 0, 0, 0, 0, 0, 0, 0xff, 3, 0, 0, 0, 0, 0, 0, 0, 0, 0]

/-- Compressing an empty file. -/
def compressEmpty : Recipe := .compressFile (fun _ => emptyGzip) [] [.normal "out.gz"]

/-- Its run with the default buffer, which holds the whole stream until it is dropped. -/
theorem compressEmpty_run {isLost : Bool} {content : List UInt8}
    (drops : Drops ⟨[], emptyGzip⟩ isLost content) :
    ∃ events, Returns (failingFiles (8 * 1024)) compressEmpty.program {} events (.ok ())
      ((({} : Files).create 0).save 0 isLost content) := by
  have writes : Writes (8 * 1024) ⟨[], []⟩ (emptyGzip ++ []) true ⟨[], emptyGzip⟩ :=
    .hold (by decide) .done
  have opened : (failingFiles (8 * 1024)).Answers {} .openArchive (.ok ()) {} := rfl
  have created : (failingFiles (8 * 1024)).Answers {} (.createFile [.normal "out.gz"]) (.ok 0)
      (({} : Files).create 0) := rfl
  have copied : (failingFiles (8 * 1024)).Answers (({} : Files).create 0) (.copy 0 emptyGzip)
      (.ok 20) ((({} : Files).create 0).save 0 isLost content) := ⟨rfl, .intro rfl writes drops⟩
  exact ⟨_, .step opened (.step created (.step copied .refl))⟩

/-- Where the drop writes the stream out, the file holds it. -/
theorem ok_holdsExactly_iff_written :
    HoldsExactly compressEmpty ((({} : Files).create 0).save 0 false emptyGzip) := by
  obtain ⟨_, run⟩ := compressEmpty_run .written
  refine (ok_holdsExactly_iff (8 * 1024) compressEmpty run).mpr fun file output isOutput => ?_
  obtain rfl := List.mem_singleton.mp (Files.mem_of_output isOutput)
  exact ⟨by simp [Files.save, Files.create], rfl⟩

/-- Where the disk is full when the writer is dropped, the file stays empty. -/
theorem compressEmpty_loses :
    ¬ ∀ events final,
      Returns (failingFiles (8 * 1024)) compressEmpty.program {} events (.ok ()) final →
        HoldsExactly compressEmpty final := by
  intro always
  have drops : Drops ⟨[], [] ++ emptyGzip⟩ true [] := .lost (by decide)
  obtain ⟨events, run⟩ := compressEmpty_run drops
  have here := always events _ run 0
  cases here

end AltairRs.Compress
