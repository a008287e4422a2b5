import AltairRs.Compress.FaultyDisk
import AltairRs.Compress.TarRoundTrip

/-!
# An extraction that is interrupted and repeated

Any call of an extraction may fail when it has done a part of its work, a writer may be
dropped with bytes it tells nobody it has lost, and the process may be killed between any
two calls. What stands at the destination then is a part of the tree: directories of it,
and files with a front of their content. An extraction over such a part fills in what is
missing and writes the files anew, so the one that is let finish leaves the tree, whatever
the earlier ones left. A directory that its owner may not write would stop every run of a tar
archive with something in it; there the modes let the owner go on.
-/

namespace AltairRs.Compress

open Data Effect Keyed Unix

/-- What may stand where the tree has this: its directory, or a file with a front of its
content. -/
def IsPart : Option (List UInt8) → PlainNode → Prop
  | none, .directory => True
  | some content, .file held => held <+: content
  | _, _ => False

/-- Below the location stands a part of the tree, and elsewhere what stood before. -/
structure Partly (forest : Forest String (List UInt8)) (location : Location)
    (before here : PlainDisk) : Prop where
  inside : ∀ path, path ≠ [] → ∀ node, here.node (location ++ path) = some node →
    ∃ kind, forest.find path = some kind ∧ IsPart kind node
  outside : ∀ other, (∀ path, path ≠ [] → other ≠ location ++ path) →
    here.node other = before.node other

/-- Below the location stands exactly the tree, and elsewhere what stood before. -/
structure Whole (forest : Forest String (List UInt8)) (location : Location)
    (before after : PlainDisk) : Prop where
  inside : ∀ path, path ≠ [] → after.node (location ++ path) = (forest.find path).map plainNode
  outside : ∀ other, (∀ path, path ≠ [] → other ≠ location ++ path) →
    after.node other = before.node other

variable {faults lost : Prop} {forest : Forest String (List UInt8)} {before here after : PlainDisk}
  {current location : Location} {dest : Path} {limit : UInt64}
  {history : List (Event tarSignature)}

/-- An empty directory is a part of every tree. -/
theorem Partly.start (isEmpty : EmptyDirectory before current dest location) :
    Partly forest location before before := by
  refine ⟨fun path isSome node isNode => ?_, fun _ _ => rfl⟩
  cases (isEmpty.isEmpty path isSome).symm.trans isNode

/-- The destination is still there. -/
theorem Partly.follows (partly : Partly forest location before here)
    (isEmpty : EmptyDirectory before current dest location) :
    here.follow current dest = some location := by
  refine PlainDisk.follow_of_directories isEmpty.follows fun place isDirectory => ?_
  rw [partly.outside place, isDirectory]
  rintro path isSome rfl
  cases (isEmpty.isEmpty path isSome).symm.trans isDirectory

/-- An extraction at work on a part of the tree: the branches it has made can be followed,
and if the cap is enough, what it is done with stands whole. -/
structure Resuming (forest : Forest String (List UInt8)) (before : PlainDisk)
    (current location : Location) (dest : Path) (isEnough : Prop) (branches : List (List String))
    (done : List (List String × Option (List UInt8))) (here : PlainDisk) : Prop where
  partly : Partly forest location before here
  follows : ∀ above ∈ branches,
    here.follow current (dest ++ named above) = some (location ++ above)
  whole : isEnough → ∀ entry ∈ done, here.node (location ++ entry.1) = some (plainNode entry.2)

/-- The nodes may only ever be a part of the tree. -/
def partOf (forest : Forest String (List UInt8)) (location : Location) (before : PlainDisk) :
    Contract tarSignature PlainDisk where
  Inv _ here := Partly forest location before here

namespace Resuming

variable {isEnough : Prop} {branches : List (List String)}
  {done : List (List String × Option (List UInt8))} {path above : List String} {name : String}
  {kind : Option (List UInt8)}

/-- A change where nothing is done yet, to a part of what belongs there. A directory stays. -/
theorem change (resuming : Resuming forest before current location dest isEnough branches done here)
    (isThere : forest.find path = some kind) (isSome : path ≠ [])
    (isNew : path ∉ done.map Prod.fst) {value : Option PlainNode}
    (isNode : after.node = Function.update here.node (location ++ path) value)
    (isPart : ∀ node ∈ value, IsPart kind node) (stays : kind = none → value = some .directory) :
    Resuming forest before current location dest isEnough branches done after := by
  have elsewhere : ∀ {other : Location}, other ≠ location ++ path →
      after.node other = here.node other := fun different => by
    rw [isNode, Function.update_of_ne different]
  have changed : after.node (location ++ path) = value := by
    rw [isNode, Function.update_self]
  refine ⟨⟨fun other isPath node isHere => ?_, fun other isOutside => ?_⟩, fun above isBranch => ?_,
    fun enough entry isDone => ?_⟩
  · by_cases same : other = path
    · subst same
      rw [changed] at isHere
      exact ⟨kind, isThere, isPart node isHere⟩
    · rw [elsewhere fun equal => same (List.append_cancel_left equal)] at isHere
      exact resuming.partly.inside other isPath node isHere
  · rw [elsewhere (isOutside path isSome)]
    exact resuming.partly.outside other isOutside
  · refine PlainDisk.follow_of_directories (resuming.follows above isBranch) fun place there => ?_
    by_cases same : place = location ++ path
    · subst same
      obtain ⟨other, isOther, isDirectory⟩ := resuming.partly.inside path isSome _ there
      cases isThere.symm.trans isOther
      cases kind with
      | none => rw [changed, stays rfl]
      | some content => cases isDirectory
    · rwa [elsewhere same]
  · have different : entry.1 ≠ path := by
      rintro rfl
      exact isNew (List.mem_map_of_mem isDone)
    rw [elsewhere fun equal => different (List.append_cancel_left equal)]
    exact resuming.whole enough entry isDone

/-- One more entry stands whole, if the cap is enough. -/
theorem finish (resuming : Resuming forest before current location dest isEnough branches done here)
    (isNode : isEnough → here.node (location ++ path) = some (plainNode kind)) :
    Resuming forest before current location dest isEnough branches ((path, kind) :: done) here :=
  { resuming with
    whole := fun enough => List.forall_mem_cons.mpr ⟨isNode enough, resuming.whole enough⟩ }

/-- A directory that stands is one more branch. -/
theorem branch (resuming : Resuming forest before current location dest isEnough branches done here)
    (inside : above ∈ branches)
    (isDirectory : here.node (location ++ (above ++ [name])) = some .directory) :
    Resuming forest before current location dest isEnough ((above ++ [name]) :: branches) done
      here := by
  refine { resuming with follows := List.forall_mem_cons.mpr ⟨?_, resuming.follows⟩ }
  have isPath : dest ++ named (above ++ [name]) = dest ++ named above ++ [.normal name] := by
    simp [named]
  rw [← List.append_assoc] at isDirectory
  rw [isPath, PlainDisk.follow_append, resuming.follows above inside, Option.bind_some,
    PlainDisk.follow, if_pos isDirectory, List.append_assoc]
  rfl

end Resuming

section Calls

variable {path : Path} {directory : Location} {name : String} {next : PlainDisk}

end Calls

/-- The cap allows the rest, or would refuse it. -/
def Enough {κ : Type} (limit : UInt64) (total : Nat) (entries : List (κ × Option (List UInt8))) :
    Prop :=
  total ≤ limit.toNat ∧
    (limit.toNat < 2 ^ 64 - 1 ∨ total + entriesSize entries ≤ limit.toNat)

namespace Enough

variable {κ : Type} {total : Nat} {path : κ} {rest : List (κ × Option (List UInt8))}

/-- A file that is not refused is copied whole. -/
theorem copied {content : List UInt8} (enough : Enough limit total ((path, some content) :: rest))
    (notOver : ¬ limit.toNat <
      saturatingAdd total (content.take (saturatingAdd (limit.toNat - total) 1)).length) :
    content.take (saturatingAdd (limit.toNat - total) 1) = content ∧
      Enough limit (saturatingAdd total
        (content.take (saturatingAdd (limit.toNat - total) 1)).length) rest := by
  obtain ⟨within, allows⟩ := enough
  rw [entriesSize_file] at allows
  have fits : total + content.length ≤ limit.toNat :=
    allows.elim (fun below => fits_of_not_over below within notOver) fun all => by omega
  obtain ⟨whole, isNext⟩ := copied_of_fits fits
  rw [whole, isNext]
  exact ⟨rfl, fits, allows.imp_right fun all => by omega⟩

/-- What is not counted leaves the cap to the rest. -/
theorem uncounted {kind : Option (List UInt8)}
    (enough : Enough limit total ((path, kind) :: rest)) : Enough limit total rest := by
  refine ⟨enough.1, enough.2.imp_right fun all => ?_⟩
  cases kind with
  | none => exact all
  | some content =>
      rw [entriesSize_file] at all
      omega

end Enough

section Entries

variable {isEnough : Prop} {branches : List (List String)}
  {done rest : List (List String × Option (List UInt8))} {above : List String} {name : String}
  {content : List UInt8} {total : Nat}

/-- Where the tree has a file, no directory stands. -/
theorem Partly.notDirectory (partly : Partly forest location before here) {path : List String}
    (isThere : forest.find path = some (some content)) (isSome : path ≠ []) :
    here.node (location ++ path) ≠ some .directory := by
  intro stands
  obtain ⟨kind, isKind, isDirectory⟩ := partly.inside path isSome _ stands
  cases isThere.symm.trans isKind
  exact isDirectory

/-- Where the tree has a directory, nothing else stands. -/
theorem Partly.free (partly : Partly forest location before here) {path : List String}
    (isThere : forest.find path = some none) (isSome : path ≠ []) :
    here.node (location ++ path) = none ∨ here.node (location ++ path) = some .directory := by
  cases stands : here.node (location ++ path) with
  | none => exact .inl rfl
  | some node =>
      obtain ⟨kind, isKind, isPart⟩ := partly.inside path isSome _ stands
      cases isThere.symm.trans isKind
      cases node with
      | directory => exact .inr rfl
      | file held => cases isPart

/-- How an entry ends: the loop goes on with it done, or a call has failed or the cap does not
allow what there is. -/
structure EntryEnds (faults : Prop) (forest : Forest String (List UInt8)) (before : PlainDisk)
    (current location : Location) (dest : Path) (isEnough : Prop) (limit : UInt64)
    (branches : List (List String)) (done rest : List (List String × Option (List UInt8)))
    (entry : List String × Option (List UInt8)) (total : Nat) (value : Result Nat)
    (after : PlainDisk) : Prop where
  resumes : ∀ next, value = .ok next →
    Resuming forest before current location dest isEnough
      (if entry.2.isNone then entry.1 :: branches else branches) (entry :: done) after
  enough : ∀ next, value = .ok next → isEnough → Enough limit next rest
  counted : ∀ next, value = .ok next →
    next + entriesSize rest ≤ total + entriesSize (entry :: rest)
  fails : ∀ e, value = .error e → faults ∨ limit.toNat < total + entriesSize (entry :: rest)

/-- A call has failed. -/
theorem EntryEnds.failed (hasFaults : faults) {entry : List String × Option (List UInt8)}
    {e : Error} {after : PlainDisk} :
    EntryEnds faults forest before current location dest isEnough limit branches done rest entry
      total (.error e) after :=
  ⟨nofun, nofun, nofun, fun _ _ => .inl hasFaults⟩

end Entries

section Loops

variable {isEnough : Prop} {branches : List (List String)}
  {done entries : List (List String × Option (List UInt8))} {total : Nat}

/-- How an extraction ends: if it succeeds under a cap that is enough, everything stands
whole, and it only fails if a call has or if there is more than the cap allows. -/
structure Ends (faults : Prop) (location : Location) (isEnough : Prop) (limit : UInt64)
    (entries : List (List String × Option (List UInt8))) (size : Nat) (value : Result Unit)
    (after : PlainDisk) : Prop where
  whole : value = .ok () → isEnough →
    ∀ entry ∈ entries, after.node (location ++ entry.1) = some (plainNode entry.2)
  fails : ∀ e, value = .error e → faults ∨ limit.toNat < size

/-- The root of the destination is the one branch there is before the first entry. -/
theorem Resuming.start (isEmpty : EmptyDirectory before current dest location)
    (partly : Partly forest location before here) :
    Resuming forest before current location dest isEnough [[]] [] here := by
  refine ⟨partly, fun above isRoot => ?_, fun _ _ => nofun⟩
  rw [List.mem_singleton.mp isRoot, named, List.map_nil, List.append_nil, List.append_nil]
  exact partly.follows isEmpty

end Loops

/-- The listing has what stands in the tree. -/
theorem find_eq_some_iff (distinct : forest.Distinct) {path : List String}
    {kind : Option (List UInt8)} :
    forest.find path = some kind ↔ (path, kind) ∈ forest.entries [] := by
  rw [← Forest.lookup_entries distinct [] path, List.nil_append]
  convert Keyed.lookup_eq_some_iff (Forest.rooted_entries distinct).nodup.1 path kind

/-- A part of the tree in which every entry stands whole is the tree. -/
theorem Partly.whole (partly : Partly forest location before here) (distinct : forest.Distinct)
    (stands : ∀ entry ∈ forest.entries [], here.node (location ++ entry.1) =
      some (plainNode entry.2)) : Whole forest location before here := by
  refine ⟨fun path isSome => ?_, partly.outside⟩
  cases isThere : forest.find path with
  | some kind => exact stands _ ((find_eq_some_iff distinct).mp isThere)
  | none =>
      cases isHere : here.node (location ++ path) with
      | none => rfl
      | some node =>
          obtain ⟨kind, isKind, -⟩ := partly.inside path isSome node isHere
          cases isThere.symm.trans isKind

/-- What an extraction has left can be resumed from: a part of the tree stands there, the
next run that succeeds and whose writers lose nothing leaves the whole tree if its cap is
below `u64::MAX` or allows the size, and where directories let their owner go on, a run whose
cap allows the size and none of whose calls fails does succeed. -/
structure Resumes (forest : Forest String (List UInt8)) (size : Nat) (accessible : Prop)
    (extract : Path → UInt64 → TarProgram (Result Unit)) (current location : Location)
    (dest : Path) (before here : ModeDisk) : Prop where
  partly : Partly forest location before.plain here.plain
  whole : ∀ (limit : UInt64) events after,
    Returns (faultyModeDisk True False current) (extract dest limit) here events (.ok ()) after →
      limit.toNat < 2 ^ 64 - 1 ∨ size ≤ limit.toNat →
        Whole forest location before.plain after.plain
  succeeds : accessible → ReadyDirectory before current dest location →
    ∀ limit : UInt64, size ≤ limit.toNat →
      ∃ after, (modeTarDisk current).Gives (extract dest limit) here (.ok ()) after ∧
        Whole forest location before.plain after.plain

/-- After any number of runs into an empty directory, under any caps, each of them cut
anywhere, any call of them failed with a part of it done and any writer dropped with bytes
lost, the extraction can be resumed. -/
def Resumable (forest : Forest String (List UInt8)) (size : Nat) (accessible : Prop)
    (extract : Path → UInt64 → TarProgram (Result Unit)) : Prop :=
  ∀ ⦃current location : Location⦄ ⦃dest : Path⦄ ⦃before here : ModeDisk⦄
    ⦃history : List (Event tarSignature)⦄,
    EmptyDirectory before.plain current dest location →
      Executions (faultyModeDisk True True current)
        (fun program => ∃ limit, program = extract dest limit) before history here →
      Resumes forest size accessible extract current location dest before here

/-- Every run of an extraction over a part of the tree keeps to it, and ends as its loop
does. -/
def RunsResume (forest : Forest String (List UInt8)) (size : Nat)
    (extract : Path → UInt64 → TarProgram (Result Unit)) : Prop :=
  ∀ ⦃faults lost : Prop⦄ ⦃current location : Location⦄ ⦃dest : Path⦄ ⦃before here : PlainDisk⦄
    ⦃limit : UInt64⦄ ⦃history : List (Event tarSignature)⦄,
    EmptyDirectory before current dest location → Partly forest location before here →
      Safe (faultyDisk faults lost current) (partOf forest location before)
        (fun value _ after => Ends faults location
          (¬ lost ∧ (limit.toNat < 2 ^ 64 - 1 ∨ size ≤ limit.toNat)) limit (forest.entries [])
          size value after)
        (extract dest limit) history here

/-- Cut and failed runs leave a part of the tree. -/
theorem RunsResume.keeps {size : Nat} {extract : Path → UInt64 → TarProgram (Result Unit)}
    (runs : RunsResume forest size extract)
    (isEmpty : EmptyDirectory before current dest location)
    (executions : Executions (faultyDisk True True current)
      (fun program => ∃ limit, program = extract dest limit) before history here) :
    Partly forest location before here := by
  have kept : ∀ program history state, (∃ limit, program = extract dest limit) →
      (partOf forest location before).Inv history state →
        Safe (faultyDisk True True current) (partOf forest location before) (fun _ _ _ => True)
          program history state := by
    rintro program history state ⟨limit, rfl⟩ partly
    exact (runs isEmpty partly).mono fun _ _ _ _ _ => trivial
  have start : (partOf forest location before).Inv [] before := Partly.start isEmpty
  exact executions.invariant start kept

/-- On a disk without modes, nothing but the cap can stop a run none of whose calls fails. -/
theorem RunsResume.finishes {size : Nat} {extract : Path → UInt64 → TarProgram (Result Unit)}
    (runs : RunsResume forest size extract) (distinct : forest.Distinct)
    (isEmpty : EmptyDirectory before current dest location)
    (partly : Partly forest location before here) (allows : size ≤ limit.toNat) :
    ∃ after, (plainTarDisk current).Gives (extract dest limit) here (.ok ()) after ∧
      Whole forest location before after := by
  have returns : Returns (faultyDisk False False current) (extract dest limit) here _ _ _ :=
    ((plainTarDisk current).eval_returns (extract dest limit) here).in_world
      fun _ _ _ _ answer => .inl answer.symm
  have safe := @runs False False current location dest before here limit [] isEmpty partly
  obtain ⟨stands, ends⟩ := safe.reaches returns
  have isOk : ((plainTarDisk current).eval (extract dest limit) here).value = .ok () := by
    cases outcome : ((plainTarDisk current).eval (extract dest limit) here).value with
    | ok _ => rfl
    | error e => exact ((ends.fails e outcome).elim id (Nat.not_lt.mpr allows)).elim
  exact ⟨_, ⟨isOk, rfl⟩, Partly.whole stands distinct (ends.whole isOk ⟨id, .inr allows⟩)⟩

/-- Cut and failed runs leave the way open. -/
theorem ReadyDirectory.stays {extract : Path → UInt64 → TarProgram (Result Unit)}
    {inner : List String → Prop} {before here : ModeDisk}
    (ready : ReadyDirectory before current dest location)
    (within : ∀ limit, Requests (TarOp.Within inner dest) (extract dest limit))
    (executions : Executions (faultyModeDisk faults lost current)
      (fun program => ∃ limit, program = extract dest limit) before history here) :
    Admits inner current dest location here := by
  have isLocation : location = target current dest :=
    PlainDisk.follow_eq_target ready.isEmpty.follows
  let admitting : Contract tarSignature ModeDisk :=
    { Inv := fun _ here => Admits inner current dest location here }
  have start : admitting.Inv [] before := ready.admits inner
  have kept : ∀ program history state, (∃ limit, program = extract dest limit) →
      admitting.Inv history state →
        Safe (faultyModeDisk faults lost current) admitting (fun _ _ _ => True) program history
          state := by
    rintro program history state ⟨limit, rfl⟩ admits
    exact (within limit).safe (fun _ _ _ _ isWithin admits answer =>
      admits.faulty isLocation ready.apart isWithin answer) admits
  exact executions.invariant start kept

/-- What is resumed without modes is resumed with them, within directories that let their
owner go on. -/
theorem RunsResume.resumes {size : Nat} {extract : Path → UInt64 → TarProgram (Result Unit)}
    {accessible : Prop} {inner : List String → Prop} (runs : RunsResume forest size extract)
    (distinct : forest.Distinct)
    (within : accessible → ∀ dest limit, Requests (TarOp.Within inner dest) (extract dest limit)) :
    Resumable forest size accessible extract := by
  intro current location dest before here history isEmpty executions
  have partly : Partly forest location before.plain here.plain :=
    runs.keeps isEmpty
      (executions.simulates ModeDisk.plain fun _ _ _ _ answer => faultyModeDisk_plain answer)
  refine ⟨partly, fun limit events after returns enough => ?_,
    fun isAccessible ready limit allows => ?_⟩
  · have safe := @runs True False current location dest before.plain here.plain limit [] isEmpty
      partly
    obtain ⟨stands, ends⟩ := safe.reaches
      (returns.simulates ModeDisk.plain fun _ _ _ _ answer => faultyModeDisk_plain answer)
    exact Partly.whole stands distinct (ends.whole rfl ⟨id, enough⟩)
  · obtain ⟨final, gives, isWhole⟩ := runs.finishes distinct isEmpty partly allows
    have admits := ready.stays (within isAccessible dest) executions
    obtain ⟨after, given, rfl⟩ := admits.gives (partly.follows isEmpty) ready.apart
      (within isAccessible dest limit) gives
    exact ⟨after, given, isWhole⟩

/-- What is read of a folder's archive. -/
def Folder.entries {File : Type} (crate : ZipCrate File) (folder : Folder) : List ZipEntry :=
  (folder.forest.entries []).map fun path => crate.entry (crate.item path)

/-- These are the entries of its paths, in their order. -/
theorem Folder.areRecords {File : Type} (crate : ZipCrate File) (folder : Folder) :
    List.Forall₂ (fun path entry => entry = crate.entry (crate.item path) ∧
        ∀ name ∈ path.1, IsZipName name)
      (folder.forest.entries []) (folder.entries crate) := by
  rw [Folder.entries, List.forall₂_map_right_iff, List.forall₂_same]
  refine fun entry member => ⟨rfl, fun name isName => ?_⟩
  rcases Forest.mem_allNames_of_mem_entries member name isName with inRoot | inForest
  · cases inRoot
  · exact folder.areNames name inForest

end AltairRs.Compress
