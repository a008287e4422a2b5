import AltairRs.Compress.TarModes

/-!
# Disks whose calls fail half way

Any call of an extraction may fail when it has done a part of its work, and a writer may be
dropped with bytes it tells nobody it has lost. On a disk where directories have modes, what a
call does that is refused is what a call that fails does on one without.
-/

namespace AltairRs.Compress

open Effect Unix

/-- A call that failed. -/
def TarOp.Failed : (op : TarOp) → tarSignature.Response op → Prop
  | .openArchive, .error _ | .createDirAll _, .error _ | .createFile _, .error _
  | .copy .., .error _ | .unpack .., .error _ => True
  | _, _ => False

/-- What a call that failed may have done to the nodes at a location. -/
def TarOp.PartlyDone (current : Location) (here : PlainDisk) : TarOp → PlainDisk → Prop
  | .openArchive, next => next = here
  | .createDirAll path, next => ∃ above, above <+: path ∧ next = (here.makeDirs current above).2
  | .createFile path, next =>
      ∃ location, here.place current path = some location ∧
        here.node location ≠ some .directory ∧ next = here.put location (.file [])
  | .copy file bytes, next => ∃ count, here.append file (bytes.take count) = some next
  | .unpack entry dst, next =>
      ∃ location, here.place current dst = some location ∧
        (entry.entryType = .directory ∧ here.node location = none ∧
            next = here.put location .directory ∨
          entry.entryType.hasPayload ∧ here.node location ≠ some .directory ∧
            (next.node = Function.update here.node location none ∨
              ∃ count, next = here.put location (.file (entry.data.take count))))

/-- A copy that succeeds, and whose writer is dropped and tells nobody what it has not
written. -/
def TarOp.Loses (here : PlainDisk) : (op : TarOp) → tarSignature.Response op → PlainDisk → Prop
  | .copy file bytes, .ok written, next =>
      written = bytes.length ∧ ∃ count, here.append file (bytes.take count) = some next
  | _, _, _ => False

/-- A disk without links. If there are faults, every call may fail, with nothing or a part
of it done; bytes that a dropped writer still holds may be lost or not. -/
def faultyDisk (faults lost : Prop) (current : Location) : World tarSignature PlainDisk where
  Answers here op response next :=
    (response, next) = plainTarDisk current here op ∨
      faults ∧ op.Failed response ∧ (next = here ∨ op.PartlyDone current here next) ∨
      lost ∧ op.Loses here response next

/-- What a call that failed may have done where directories have modes; one may have been made
that has not got its recorded mode. -/
def TarOp.PartlyDoneModes (current : Location) (here : ModeDisk) : TarOp → ModeDisk → Prop
  | .openArchive, next => next = here
  | .createDirAll path, next => ∃ above, above <+: path ∧ next = (here.makeDirs current above).2
  | .createFile path, next =>
      ∃ location, here.place current path = some location ∧
        here.plain.node location ≠ some .directory ∧
        next = here.onPlain (here.plain.put location (.file []))
  | .copy file bytes, next =>
      ∃ count written, here.plain.append file (bytes.take count) = some written ∧
        next = here.onPlain written
  | .unpack entry dst, next =>
      ∃ location, here.place current dst = some location ∧
        (entry.entryType = .directory ∧ here.plain.node location = none ∧
            next = here.mkdir location ∨
          entry.entryType.hasPayload ∧ here.plain.node location ≠ some .directory ∧
            ∃ plain : PlainDisk, next = here.onPlain plain ∧
              (plain.node = Function.update here.plain.node location none ∨
                ∃ count, plain = here.plain.put location (.file (entry.data.take count))))

/-- A disk without links where directories have modes. If there are faults, every call may
fail, with nothing or a part of it done; bytes that a dropped writer still holds may be lost or
not. -/
def faultyModeDisk (faults lost : Prop) (current : Location) : World tarSignature ModeDisk where
  Answers here op response next :=
    (response, next) = modeTarDisk current here op ∨
      faults ∧ op.Failed response ∧ (next = here ∨ op.PartlyDoneModes current here next) ∨
      lost ∧ op.Loses here.plain response next.plain ∧ next.mode = here.mode

variable {faults lost : Prop} {current : Location} {here next : ModeDisk} {op : TarOp}

/-- A part of a call is a part of it without the modes. -/
theorem TarOp.PartlyDoneModes.plain (partly : op.PartlyDoneModes current here next) :
    op.PartlyDone current here.plain next.plain := by
  cases op with
  | openArchive => exact congrArg ModeDisk.plain partly
  | createDirAll path =>
      obtain ⟨above, isAbove, rfl⟩ := partly
      obtain ⟨front, isFront, isMade⟩ := ModeDisk.makeDirs_plain here current above
      exact ⟨front, isFront.trans isAbove, isMade⟩
  | createFile path =>
      obtain ⟨location, isPlace, free, rfl⟩ := partly
      exact ⟨location, ModeDisk.plain_place isPlace, free, rfl⟩
  | copy file bytes =>
      obtain ⟨count, written, isAppended, rfl⟩ := partly
      exact ⟨count, isAppended⟩
  | unpack entry dst =>
      obtain ⟨location, isPlace, made | ⟨hasPayload, free, plain, rfl, left⟩⟩ := partly
      · obtain ⟨isDirectory, absent, rfl⟩ := made
        exact ⟨location, ModeDisk.plain_place isPlace, .inl ⟨isDirectory, absent, rfl⟩⟩
      · exact ⟨location, ModeDisk.plain_place isPlace, .inr ⟨hasPayload, free, left⟩⟩

/-- Without the modes, a call is answered the same, or it has failed with a part of it done. -/
theorem modeTarDisk_plain :
    (modeTarDisk current here op).1 = (plainTarDisk current here.plain op).1 ∧
        (modeTarDisk current here op).2.plain = (plainTarDisk current here.plain op).2 ∨
      op.Failed (modeTarDisk current here op).1 ∧
        ((modeTarDisk current here op).2.plain = here.plain ∨
          op.PartlyDone current here.plain (modeTarDisk current here op).2.plain) := by
  cases op with
  | openArchive => exact .inl ⟨rfl, rfl⟩
  | createDirAll path =>
      obtain ⟨front, isFront, isPart⟩ := ModeDisk.makeDirs_plain here current path
      rcases isMade : here.makeDirs current path with ⟨_ | _, made⟩
      · rw [isMade] at isPart
        simp only [modeTarDisk, isMade]
        exact .inr ⟨trivial, .inr ⟨front, isFront, isPart⟩⟩
      · simp only [modeTarDisk, plainTarDisk, plainDisk, isMade,
          ModeDisk.makeDirs_plain_of_ok isMade]
        exact .inl ⟨trivial, trivial⟩
  | createFile path =>
      cases isCreated : here.create current path with
      | none =>
          simp only [modeTarDisk, isCreated]
          exact .inr ⟨trivial, .inl trivial⟩
      | some created =>
          obtain ⟨location, isPlace, free, isFile, isOpened⟩ := ModeDisk.create_eq_some isCreated
          simp only [modeTarDisk, plainTarDisk, plainDisk, PlainDisk.create, isCreated,
            ModeDisk.plain_place isPlace, if_neg free]
          exact .inl ⟨congrArg Except.ok isFile, congrArg ModeDisk.plain isOpened⟩
  | copy file bytes =>
      simp only [modeTarDisk, plainTarDisk, plainDisk]
      cases here.plain.append file bytes with
      | none => exact .inl ⟨rfl, rfl⟩
      | some written => exact .inl ⟨rfl, rfl⟩
  | unpack entry dst =>
      simp only [modeTarDisk, plainTarDisk]
      cases isPlace : here.place current dst with
      | none => exact .inr ⟨trivial, .inl rfl⟩
      | some location =>
          rw [ModeDisk.plain_place isPlace]
          by_cases isDirectory : entry.entryType = .directory
          · simp only [if_pos isDirectory]
            cases isNode : here.plain.node location with
            | none =>
                by_cases writes : here.Allows writeBit location.dropLast
                · simp only [if_pos writes, setRecorded_plain]
                  exact .inl ⟨trivial, rfl⟩
                · simp only [if_neg writes]
                  exact .inr ⟨trivial, .inl trivial⟩
            | some node =>
                cases node with
                | directory => exact .inl ⟨rfl, setRecorded_plain ..⟩
                | file content => exact .inl ⟨rfl, rfl⟩
          · simp only [if_neg isDirectory]
            by_cases hasPayload : entry.entryType.hasPayload
            · simp only [if_pos hasPayload]
              by_cases writes : here.Allows writeBit location.dropLast
              · simp only [if_pos writes]
                cases here.plain.node location with
                | none => exact .inl ⟨rfl, rfl⟩
                | some node => cases node <;> exact .inl ⟨rfl, rfl⟩
              · simp only [if_neg writes]
                cases here.plain.node location with
                | none => exact .inr ⟨trivial, .inl rfl⟩
                | some node =>
                    cases node with
                    | directory => exact .inl ⟨rfl, rfl⟩
                    | file content => exact .inr ⟨trivial, .inl rfl⟩
            · simp only [if_neg hasPayload]
              exact .inl ⟨trivial, trivial⟩

/-- Without the modes, what is refused is a fault. -/
theorem faultyModeDisk_plain {response : tarSignature.Response op}
    (answer : (faultyModeDisk faults lost current).Answers here op response next) :
    (faultyDisk True lost current).Answers here.plain op response next.plain := by
  rcases answer with answered | ⟨-, failed, partly⟩ | ⟨hasLost, loses, -⟩
  · obtain ⟨rfl, rfl⟩ := Prod.mk.inj answered
    rcases modeTarDisk_plain with ⟨sameResponse, samePlain⟩ | ⟨failed, partly⟩
    · exact .inl (Prod.ext sameResponse samePlain)
    · exact .inr (.inl ⟨trivial, failed, partly⟩)
  · exact .inr (.inl ⟨trivial, failed,
      partly.imp (congrArg ModeDisk.plain) TarOp.PartlyDoneModes.plain⟩)
  · exact .inr (.inr ⟨hasLost, loses⟩)

/-- Faults leave the way open that the calls go. -/
theorem Admits.faulty {inner : List String → Prop} {location : Location} {dest : Path}
    {response : tarSignature.Response op} (admits : Admits inner current dest location here)
    (isLocation : location = target current dest) (apart : Apart current dest location)
    (within : op.Within inner dest)
    (answer : (faultyModeDisk faults lost current).Answers here op response next) :
    Admits inner current dest location next := by
  rcases answer with answered | ⟨-, -, rfl | partly⟩ | ⟨-, loses, sameModes⟩
  · obtain ⟨-, rfl⟩ := Prod.mk.inj answered
    exact admits.answered isLocation apart within
  · exact admits
  · cases op with
    | openArchive =>
        obtain rfl : next = here := partly
        exact admits
    | createDirAll path =>
        obtain ⟨above, -, rfl⟩ := partly
        exact admits.keeps (.makeDirs _ _ _)
    | createFile path =>
        obtain ⟨location, -, -, rfl⟩ := partly
        exact admits.keeps (.putFile _ _ _ _)
    | copy file bytes =>
        obtain ⟨count, written, isAppended, rfl⟩ := partly
        exact admits.keeps (.onPlain fun place =>
          (PlainDisk.append_directories isAppended place).mp)
    | unpack entry dst =>
        obtain ⟨location, -, ⟨-, -, rfl⟩ | ⟨-, -, plain, rfl, isRemoved | ⟨count, rfl⟩⟩⟩ := partly
        · exact admits.keeps (.mkdir _ _)
        · refine admits.keeps (.onPlain fun place isDirectory => ?_)
          rw [isRemoved] at isDirectory
          by_cases same : place = location
          · subst same
            rw [Function.update_self] at isDirectory
            cases isDirectory
          · rwa [Function.update_of_ne same] at isDirectory
        · exact admits.keeps (.putFile _ _ _ _)
  · cases op with
    | copy file bytes =>
        cases response with
        | ok written =>
            obtain ⟨-, count, isAppended⟩ := loses
            have isNext : next = here.onPlain next.plain := by
              rw [ModeDisk.onPlain, ← sameModes]
            rw [isNext]
            exact admits.keeps (.onPlain fun place =>
              (PlainDisk.append_directories isAppended place).mp)
        | error e => exact loses.elim
    | openArchive | createDirAll | createFile | unpack => cases loses

end AltairRs.Compress
