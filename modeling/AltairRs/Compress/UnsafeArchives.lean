import AltairRs.Compress.ByteLimit
import AltairRs.Compress.TarDisk
import AltairRs.Compress.Zip
import AltairRs.Effect.Recorded

/-!
# Archives that are refused half way

The loops check an entry and write it before they look at the next one. An archive with an
entry that is rejected is always refused, but what comes before that entry has been written
by then, so nothing is left exactly if nothing that is written comes before it.
-/

namespace AltairRs.Compress

open Effect Unix

/-- Whether a call writes something. For which paths `create_dir_all` makes a directory is up
to the disk, and for which entries `Entry::unpack` writes is up to the `tar` crate. -/
def TarOp.writes (makes : Path → Bool) (unpacks : TarEntry → Path → Bool) : TarOp → Bool
  | .openArchive => false
  | .createDirAll path => makes path
  | .createFile _ | .copy .. => true
  | .unpack entry dst => unpacks entry dst

/-- Where `Entry::unpack` writes: a directory unless it is there, and everything else but for
the types that have no content and no link. -/
def unpackWrites (makes : Path → Bool) (entry : TarEntry) (dst : Path) : Bool :=
  match entry.entryType with
  | .directory => makes dst
  | .character | .block | .fifo => false
  | .regular | .hardLink | .symlink | .continuous | .gnuSparse | .unknown _ => true

/-- On a disk, a call that does not write changes nothing, if the directories that are not
made stand with everything above them. -/
theorem unchanged_of_writes_false {makes : Path → Bool} {current : Location} {here next : Disk}
    {op : TarOp} {response : tarSignature.Response op}
    (silent : op.writes makes (unpackWrites makes) = false)
    (stands : ∀ path, makes path = false → ∀ above, above <+: path → ∀ location,
      Locates here.fs current above location → here.fs.node location ≠ none)
    (answer : (tarDisk current).Answers here op response next) : next = here := by
  obtain ⟨actions, changes, performed, -⟩ := answer
  -- Directories that stand are not made again.
  have noneMade {path : Path} (isSilent : makes path = false)
      (all : ∀ action ∈ actions, ∃ above, above <+: path ∧ action = .mkdir above) :
      next = here := by
    cases performed with
    | nil => rfl
    | cons first _ =>
        obtain ⟨above, isAbove, rfl⟩ := all _ List.mem_cons_self
        cases first with
        | mkdir locates absent => exact absurd absent (stands path isSilent above isAbove _ locates)
  cases op with
  | openArchive =>
      rw [show actions = [] from changes] at performed
      cases performed
      rfl
  | createDirAll path => exact noneMade silent changes
  | createFile | copy => cases silent
  | unpack entry dst =>
      rw [TarOp.writes, unpackWrites] at silent
      rw [TarOp.Changes, UnpackChanges] at changes
      cases isType : entry.entryType with
      | directory =>
          rw [isType] at silent changes
          exact noneMade silent fun action member =>
            ⟨dst, List.prefix_rfl, List.mem_singleton.mp (changes.subset member)⟩
      | character | block | fifo =>
          rw [isType] at changes
          rw [show actions = [] from changes] at performed
          cases performed
          rfl
      | regular | hardLink | symlink | continuous | gnuSparse | unknown =>
          rw [isType] at silent
          cases silent

/-- Every call may be answered in any way. -/
def anyAnswers : World tarSignature Unit where
  Answers _ _ _ _ := True

/-- Whatever the calls answer, the program fails and none of them writes. -/
def FailsUnwritten (makes : Path → Bool) (unpacks : TarEntry → Path → Bool)
    (program : TarProgram (Result Unit)) : Prop :=
  ∀ events result, Returns anyAnswers program () events result () →
    (∃ e, result = .error e) ∧ ∀ event ∈ events, event.operation.writes makes unpacks = false

/-- Whatever the calls answer, the extraction fails and none of them writes, but for those
that make the destination and open the archive, which are the first two. -/
def LeavesNothing (makes : Path → Bool) (unpacks : TarEntry → Path → Bool)
    (program : TarProgram (Result Unit)) : Prop :=
  ∀ events result, Returns anyAnswers program () events result () →
    (∃ e, result = .error e) ∧
      ∀ event ∈ events.drop 2, event.operation.writes makes unpacks = false

/-- An entry of a tar archive is rejected for its path or the target of its link. -/
def Archive.HasUnsafe (archive : Archive) (dest : Path) : Prop :=
  ∃ entry path, .ok entry ∈ archive.items ∧ checkEntry dest entry = .error (.unsafePath path)

/-- The checks on a zip entry, and where it goes. -/
def zipDestination (dest : Path) (entry : ZipEntry) : Result Path :=
  match entry.enclosedName with
  | none => .error (.unsafePath (ofText entry.name))
  | some entryPath => resolve dest entryPath

/-- The entries, each of which may be damaged. -/
def ZipContents.items : ZipContents → List (Except String ZipEntry)
  | .error e => [.error e]
  | .ok entries => entries

/-- An entry of a zip archive is rejected for its path. -/
def ZipContents.HasUnsafe (archive : ZipContents) (dest : Path) : Prop :=
  ∃ entry path, .ok entry ∈ archive.items ∧ zipDestination dest entry = .error (.unsafePath path)

/-- The entries that a zip extraction comes to before the first that is refused, with the paths
they go to. -/
def acceptedZipEntries (dest : Path) : List (Except String ZipEntry) → List (ZipEntry × Path)
  | [] | .error _ :: _ => []
  | .ok entry :: rest =>
      match zipDestination dest entry with
      | .error _ => []
      | .ok safeDest => (entry, safeDest) :: acceptedZipEntries dest rest

/-- How an extraction loop goes about an item: it is refused, or it is accepted and some run
writes, or its only call does not write. -/
inductive Begins (makes : Path → Bool) (unpacks : TarEntry → Path → Bool) :
    Option Bool → TarProgram (Result Nat) → Prop where
  | refused (e : Error) : Begins makes unpacks none (.done (.error e))
  | writes {program events result event} (run : Returns anyAnswers program () events result ())
      (member : event ∈ events) (isWriting : event.operation.writes makes unpacks = true) :
      Begins makes unpacks (some true) program
  | passes {op resume} (isSilent : op.writes makes unpacks = false)
      (ends : ∀ response, ∃ result, resume response = .done result)
      (onward : ∃ response total, resume response = .done (.ok total)) :
      Begins makes unpacks (some false) (.request op resume)

variable {makes : Path → Bool} {unpacks : TarEntry → Path → Bool} {dest : Path}

/-- Some answer is always possible. -/
theorem exists_returns_anyAnswers {α : Type} (program : TarProgram α) :
    ∃ events value, Returns anyAnswers program () events value () := by
  induction program with
  | done value => exact ⟨[], value, .refl⟩
  | request op resume ih =>
      have answered : Nonempty (tarSignature.Response op) := by
        cases op with
        | openArchive | createDirAll | unpack => exact ⟨.ok ()⟩
        | createFile | copy => exact ⟨.ok (0 : Nat)⟩
      obtain ⟨response⟩ := answered
      obtain ⟨events, value, run⟩ := ih response
      exact ⟨_, value, .step trivial run⟩

/-- With a refused item, a loop writes nothing exactly if every item before the first
refused one is passed without writing. -/
theorem failsUnwritten_loop_iff {Item : Type} {kind : Item → Option Bool}
    {body : Nat → Item → TarProgram (Result Nat)}
    {loop : Nat → List Item → TarProgram (Result Unit)}
    (begins : ∀ total item, Begins makes unpacks (kind item) (body total item))
    (cons : ∀ total item rest, loop total (item :: rest) = body total item >>= fun value =>
      match value with
      | .error e => .done (.error e)
      | .ok next => loop next rest)
    (items : List Item) (hasRefused : ∃ item ∈ items, kind item = none) (total : Nat) :
    FailsUnwritten makes unpacks (loop total items) ↔
      ∀ item ∈ items.takeWhile fun item => (kind item).isSome, kind item = some false := by
  induction items generalizing total with
  | nil =>
      obtain ⟨_, member, _⟩ := hasRefused
      cases member
  | cons item rest ih =>
      have isBegun := begins total item
      rw [cons]
      generalize body total item = program at isBegun
      generalize isKind : kind item = itemKind at isBegun
      cases isBegun with
      | refused e =>
          rw [List.takeWhile_cons_of_neg (by simp [isKind])]
          refine ⟨fun _ => List.forall_mem_nil _, fun _ events result run => ?_⟩
          obtain ⟨rfl, isResult, -⟩ := run.of_done
          cases isResult
          exact ⟨⟨e, rfl⟩, List.forall_mem_nil _⟩
      | writes run member isWriting =>
          rw [List.takeWhile_cons_of_pos (by simp [isKind]), List.forall_mem_cons, isKind]
          refine ⟨fun silent => ?_, fun all => nomatch all.1⟩
          obtain ⟨others, value, onward⟩ := exists_returns_anyAnswers _
          have isSilent := (silent _ value ((run.bind _).trans onward)).2 _
            (List.mem_append_left _ member)
          rw [isWriting] at isSilent
          cases isSilent
      | passes isSilent ends onward =>
          have restRefused : ∃ item ∈ rest, kind item = none := by
            obtain ⟨other, member, isNone⟩ := hasRefused
            rcases List.mem_cons.mp member with rfl | later
            · cases isKind.symm.trans isNone
            · exact ⟨other, later, isNone⟩
          rw [List.takeWhile_cons_of_pos (by simp [isKind]), List.forall_mem_cons]
          constructor
          · intro silent
            refine ⟨isKind, ?_⟩
            obtain ⟨response, next, isNext⟩ := onward
            refine (ih restRefused next).mp fun events result run => ?_
            have whole := silent (⟨_, response⟩ :: events) result
              (.step trivial (by rw [isNext]; exact run))
            exact ⟨whole.1, fun event member => whole.2 event (List.mem_cons_of_mem _ member)⟩
          · rintro ⟨-, others⟩ events result run
            cases run with
            | @step _ _ _ response _ later _ _ _ further =>
                obtain ⟨value, isValue⟩ := ends response
                dsimp only at further
                rw [isValue] at further
                cases value with
                | error e =>
                    obtain ⟨rfl, isResult, -⟩ := further.of_done
                    cases isResult
                    exact ⟨⟨e, rfl⟩, List.forall_mem_singleton.mpr isSilent⟩
                | ok next =>
                    obtain ⟨fails, unwritten⟩ :=
                      (ih restRefused next).mpr others later result further
                    exact ⟨fails, List.forall_mem_cons.mpr ⟨isSilent, unwritten⟩⟩

/-- The first two calls do not matter. -/
theorem leavesNothing_iff (dest : Path) (rest : TarProgram (Result Unit)) :
    LeavesNothing makes unpacks (do
      match ← createDirAll dest with
      | .error e => return .error (.io e)
      | .ok _ =>
          match ← openArchive with
          | .error e => return .error (.io e)
          | .ok _ => rest) ↔ FailsUnwritten makes unpacks rest := by
  constructor
  · intro leaves events result run
    have opened : anyAnswers.Answers () .openArchive (.ok ()) () := trivial
    have made : anyAnswers.Answers () (.createDirAll dest) (.ok ()) () := trivial
    exact leaves _ result (.step made (.step opened run))
  · intro fails events result run
    cases run with
    | @step _ _ _ made _ _ _ _ _ madeRun =>
        cases made with
        | error e =>
            obtain ⟨rfl, isResult, -⟩ := madeRun.of_done
            cases isResult
            exact ⟨⟨_, rfl⟩, List.forall_mem_nil _⟩
        | ok _ =>
            cases madeRun with
            | @step _ _ _ opened _ _ _ _ _ openedRun =>
                cases opened with
                | error e =>
                    obtain ⟨rfl, isResult, -⟩ := openedRun.of_done
                    cases isResult
                    exact ⟨⟨_, rfl⟩, List.forall_mem_nil _⟩
                | ok _ => exact fails _ result openedRun

/-- A bounded copy creates its file if the directories above it can be made. -/
theorem copyBounded_begins (kind : String) (limit : UInt64) (total : Nat) (data : List UInt8)
    (safeDest : Path) :
    Begins makes unpacks (some true) (copyBounded kind limit total data safeDest) := by
  obtain ⟨before, made⟩ : ∃ events, Returns anyAnswers (createParents safeDest) () events
      (.ok ()) () := by
    unfold createParents
    cases parent safeDest with
    | none => exact ⟨[], .refl⟩
    | some above =>
        have answer : anyAnswers.Answers () (.createDirAll above) (.ok ()) () := trivial
        exact ⟨_, .step answer .refl⟩
  have refused : anyAnswers.Answers () (.createFile safeDest) (.error ⟨""⟩) () := trivial
  have run : Returns anyAnswers (copyBounded kind limit total data safeDest) ()
      (before ++ [⟨.createFile safeDest, .error ⟨""⟩⟩]) (.error (.io ⟨""⟩)) () :=
    (made.bind _).trans (.step refused .refl)
  exact .writes run (List.mem_append_right _ List.mem_cons_self) rfl

/-- Whether a tar entry is accepted, and then whether something is written for it. -/
def tarKind (unpacks : TarEntry → Path → Bool) (dest : Path) :
    Except IoError TarEntry → Option Bool
  | .error _ => none
  | .ok entry =>
      match checkEntry dest entry with
      | .error _ => none
      | .ok safeDest => some (entry.entryType.isFile || unpacks entry safeDest)

/-- The loop of `untar` goes about an item as its kind says. -/
theorem unpackEntry_begins (dest : Path) (limit : UInt64) (total : Nat)
    (item : Except IoError TarEntry) :
    Begins makes unpacks (tarKind unpacks dest item) (match item with
      | .error e => return .error (.io e)
      | .ok entry => unpackEntry dest limit total entry) := by
  cases item with
  | error e => exact .refused _
  | ok entry =>
      simp only [tarKind, unpackEntry]
      cases checkEntry dest entry with
      | error e => exact .refused e
      | ok safeDest =>
          by_cases isFile : entry.entryType.isFile
          · simp only [isFile, if_true, Bool.true_or, unpackRegular_eq]
            exact copyBounded_begins ..
          · simp only [isFile, Bool.false_or]
            cases isUnpacked : unpacks entry safeDest with
            | true =>
                have answer : anyAnswers.Answers () (.unpack entry safeDest) (.ok ()) () := trivial
                exact .writes (.step answer .refl) List.mem_cons_self isUnpacked
            | false =>
                refine .passes isUnpacked (fun response => ?_) ⟨.ok (), total, rfl⟩
                cases response <;> exact ⟨_, rfl⟩

/-- Whether a zip entry is accepted, and then whether something is written for it. -/
def zipKind (makes : Path → Bool) (dest : Path) : Except String ZipEntry → Option Bool
  | .error _ => none
  | .ok entry =>
      match zipDestination dest entry with
      | .error _ => none
      | .ok safeDest => some (!entry.isDir || makes safeDest)

/-- The loop of `unzip` goes about an item as its kind says. -/
theorem unzipEntry_begins (dest : Path) (limit : UInt64) (total : Nat)
    (item : Except String ZipEntry) :
    Begins makes unpacks (zipKind makes dest item) (match item with
      | .error e => return .error (.zip e)
      | .ok entry => unzipEntry dest limit total entry) := by
  cases item with
  | error e => exact .refused _
  | ok entry =>
      simp only [zipKind, zipDestination, unzipEntry]
      cases entry.enclosedName with
      | none => exact .refused _
      | some entryPath =>
          cases isResolved : resolve dest entryPath with
          | error e =>
              simp only [isResolved]
              exact .refused e
          | ok safeDest =>
              simp only [isResolved]
              cases entry.isDir with
              | false => exact copyBounded_begins ..
              | true =>
                  cases isMade : makes safeDest with
                  | true =>
                      have answer : anyAnswers.Answers () (.createDirAll safeDest) (.ok ()) () :=
                        trivial
                      exact .writes (.step answer .refl) List.mem_cons_self isMade
                  | false =>
                      refine .passes isMade (fun response => ?_) ⟨.ok (), total, rfl⟩
                      cases response <;> exact ⟨_, rfl⟩

/-- The entries before the first that is refused are those accepted. -/
theorem takeWhile_tarKind (items : List (Except IoError TarEntry)) :
    items.takeWhile (fun item => (tarKind unpacks dest item).isSome) =
      (acceptedEntries dest items).map .ok := by
  induction items with
  | nil => rfl
  | cons item rest ih =>
      cases item with
      | error e => rfl
      | ok entry =>
          cases checked : checkEntry dest entry with
          | error e => simp [acceptedEntries, tarKind, checked]
          | ok safeDest =>
              have isAccepted : (tarKind unpacks dest (.ok entry)).isSome := by
                simp [tarKind, checked]
              rw [List.takeWhile_cons, if_pos isAccepted, ih, acceptedEntries, checked]
              rfl

/-- What is accepted is passed without writing if it is no file and the `tar` crate writes
nothing for it. -/
theorem tarKind_eq_false_iff {items : List (Except IoError TarEntry)} :
    (∀ item ∈ items.takeWhile fun item => (tarKind unpacks dest item).isSome,
        tarKind unpacks dest item = some false) ↔
      ∀ entry ∈ acceptedEntries dest items, ∀ safeDest, checkEntry dest entry = .ok safeDest →
        entry.entryType.isFile = false ∧ unpacks entry safeDest = false := by
  have isAccepted : ∀ item ∈ items.takeWhile fun item => (tarKind unpacks dest item).isSome,
      (tarKind unpacks dest item).isSome := fun _ => List.mem_takeWhile_imp
  rw [takeWhile_tarKind] at isAccepted ⊢
  simp only [List.forall_mem_map] at isAccepted ⊢
  refine forall₂_congr fun entry member => ?_
  have accepted := isAccepted entry member
  cases checked : checkEntry dest entry with
  | error e => simp [tarKind, checked] at accepted
  | ok safeDest => simp [tarKind, checked]

/-- What is accepted is passed without writing if it is a directory that is not made. -/
theorem zipKind_eq_false_iff {items : List (Except String ZipEntry)} :
    (∀ item ∈ items.takeWhile fun item => (zipKind makes dest item).isSome,
        zipKind makes dest item = some false) ↔
      ∀ entry safeDest, (entry, safeDest) ∈ acceptedZipEntries dest items →
        entry.isDir = true ∧ makes safeDest = false := by
  induction items with
  | nil => exact ⟨fun _ _ _ => nofun, fun _ => nofun⟩
  | cons item rest ih =>
      cases item with
      | error e => exact ⟨fun _ _ _ => nofun, fun _ => nofun⟩
      | ok entry =>
          cases isPlaced : zipDestination dest entry with
          | error e => simp [zipKind, isPlaced, acceptedZipEntries]
          | ok safeDest =>
              have isSome : (zipKind makes dest (.ok entry)).isSome := by simp [zipKind, isPlaced]
              have isKind : zipKind makes dest (.ok entry) = some false ↔
                  entry.isDir = true ∧ makes safeDest = false := by simp [zipKind, isPlaced]
              rw [List.takeWhile_cons, if_pos isSome, List.forall_mem_cons, ih, isKind,
                acceptedZipEntries, isPlaced]
              constructor
              · rintro ⟨here, later⟩ other otherDest member
                rcases List.mem_cons.mp member with same | isLater
                · obtain ⟨rfl, rfl⟩ := Prod.mk.inj same
                  exact here
                · exact later other otherDest isLater
              · intro all
                exact ⟨all entry safeDest List.mem_cons_self,
                  fun other otherDest member => all other otherDest (List.mem_cons_of_mem _ member)⟩

/-- An archive with an unsafe entry is refused, and nothing of it is left exactly if nothing
that is written comes before the first entry that is refused. -/
theorem unsafeArchive_leavesNothing_iff (makes : Path → Bool)
    (unpacks : TarEntry → Path → Bool) (dest : Path) (limit : UInt64) :
    (∀ archive : Archive, archive.HasUnsafe dest →
      (LeavesNothing makes unpacks (untarWithLimit archive dest limit) ∧
          LeavesNothing makes unpacks (untarGzWithLimit archive dest limit) ↔
        ∀ entry ∈ acceptedEntries dest archive.items, ∀ safeDest,
          checkEntry dest entry = .ok safeDest →
            entry.entryType.isFile = false ∧ unpacks entry safeDest = false)) ∧
    (∀ archive : ZipContents, archive.HasUnsafe dest →
      (LeavesNothing makes unpacks (unzipWithLimit archive dest limit) ↔
        ∀ entry safeDest, (entry, safeDest) ∈ acceptedZipEntries dest archive.items →
          entry.isDir = true ∧ makes safeDest = false)) := by
  constructor
  · rintro archive ⟨entry, path, member, isUnsafe⟩
    have hasRefused : ∃ item ∈ archive.items, tarKind unpacks dest item = none :=
      ⟨.ok entry, member, by simp [tarKind, isUnsafe]⟩
    have isLoop : unpackEntries archive dest limit = unpackLoop dest limit 0 archive.items := by
      cases archive <;> rfl
    have same : LeavesNothing makes unpacks (untarWithLimit archive dest limit) ∧
        LeavesNothing makes unpacks (untarGzWithLimit archive dest limit) ↔
        LeavesNothing makes unpacks (untarWithLimit archive dest limit) := and_iff_left_of_imp id
    rw [same, ← tarKind_eq_false_iff]
    refine (leavesNothing_iff dest (unpackEntries archive dest limit)).trans ?_
    rw [isLoop]
    refine failsUnwritten_loop_iff (unpackEntry_begins dest limit) (fun total item rest => ?_)
      archive.items hasRefused 0
    cases item <;> rfl
  · rintro archive ⟨entry, path, member, isUnsafe⟩
    have hasRefused : ∃ item ∈ archive.items, zipKind makes dest item = none :=
      ⟨.ok entry, member, by simp [zipKind, isUnsafe]⟩
    have isPrepared : LeavesNothing makes unpacks (unzipWithLimit archive dest limit) ↔
        FailsUnwritten makes unpacks (unzipLoop dest limit 0 archive.items) := by
      cases archive <;> exact leavesNothing_iff dest _
    rw [isPrepared, ← zipKind_eq_false_iff]
    refine failsUnwritten_loop_iff (unzipEntry_begins dest limit) (fun total item rest => ?_)
      archive.items hasRefused 0
    cases item <;> rfl

/-- A file that would escape. -/
def escapingEntry : TarEntry where
  entryType := .regular
  path := .ok [.parentDir, .normal "b"]
  data := [98]

def escapingZipEntry : ZipEntry where
  name := "../b"
  enclosedName := none
  isDir := false
  data := [98]

/-- Every directory is made but for the destination. -/
def makesBelow (path : Path) : Bool := path ≠ [.normal "out"]

/-- Alone it leaves nothing. -/
theorem unsafeArchive_leavesNothing_iff_escaping :
    LeavesNothing makesBelow (unpackWrites makesBelow)
        (untarWithLimit (.ok [.ok escapingEntry]) [.normal "out"] 8) ∧
      LeavesNothing makesBelow (unpackWrites makesBelow)
        (unzipWithLimit (.ok [.ok escapingZipEntry]) [.normal "out"] 8) := by
  obtain ⟨tar, zip⟩ := unsafeArchive_leavesNothing_iff makesBelow (unpackWrites makesBelow)
    [.normal "out"] 8
  constructor
  · have isUnsafe : Archive.HasUnsafe (.ok [.ok escapingEntry]) [.normal "out"] :=
      ⟨escapingEntry, [.parentDir, .normal "b"], List.mem_cons_self, rfl⟩
    exact ((tar _ isUnsafe).mpr (List.forall_mem_nil _)).1
  · have isUnsafe : ZipContents.HasUnsafe (.ok [.ok escapingZipEntry]) [.normal "out"] :=
      ⟨escapingZipEntry, ofText "../b", List.mem_cons_self, rfl⟩
    exact (zip _ isUnsafe).mpr fun _ _ => nofun

/-- A file. -/
def plainEntry : TarEntry where
  entryType := .regular
  path := .ok [.normal "a"]
  data := [97]

/-- After another file, that other file is left: it has been created and copied by the time
the archive is refused. -/
theorem plainThenEscaping_leaves :
    ¬ LeavesNothing makesBelow (unpackWrites makesBelow)
      (untarWithLimit (.ok [.ok plainEntry, .ok escapingEntry]) [.normal "out"] 4294967296) := by
  intro leaves
  have answer (op : TarOp) (response : tarSignature.Response op) :
      anyAnswers.Answers () op response () := trivial
  have run : Returns anyAnswers
      (untarWithLimit (.ok [.ok plainEntry, .ok escapingEntry]) [.normal "out"] 4294967296) ()
      [⟨.createDirAll [.normal "out"], .ok ()⟩, ⟨.openArchive, .ok ()⟩,
        ⟨.createDirAll [.normal "out"], .ok ()⟩, ⟨.createFile [.normal "out", .normal "a"], .ok 0⟩,
        ⟨.copy 0 [97], .ok 1⟩]
      (.error (.unsafePath [.parentDir, .normal "b"])) () :=
    .step (answer _ _) (.step (answer _ _) (.step (answer _ _) (.step (answer _ _)
      (.step (answer _ _) .refl))))
  have isSilent := (leaves _ _ run).2 ⟨.copy 0 [97], .ok 1⟩ (by simp)
  cases isSilent

end AltairRs.Compress
