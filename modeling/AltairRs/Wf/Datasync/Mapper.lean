import AltairRs.Wf.Error

/-!
# Mappers

The outcome of a mapper that may drop records, the loop of `RecordMapper`, and the
mapper that passes everything through. A dropped record leaves its position and the
text of its error behind.
-/

namespace AltairRs.Wf.Datasync

variable {T U ε : Type}

/-- `MapResult`. -/
structure MapResult (U : Type) where
  records : List U := []
  skipped : Nat := 0
  skipReasons : List String := []
deriving DecidableEq, Repr

/-- `RecordMapper`: a name and a conversion of one record. -/
structure RecordMapper (T U ε : Type) where
  name : String
  func : T → Except ε U

variable [ToString ε]

/-- One turn of the loop of `map_detailed`, on the record at position `i`. -/
def RecordMapper.turn (mapper : RecordMapper T U ε) (i : Nat) (out : MapResult U) (record : T) :
    MapResult U :=
  match mapper.func record with
  | .ok mapped => { out with records := out.records ++ [mapped] }
  | .error e =>
      { out with
        skipped := out.skipped + 1
        skipReasons := out.skipReasons ++ [s!"record {i}: {e}"] }

/-- The loop from position `i` on. -/
def RecordMapper.mapFrom (mapper : RecordMapper T U ε) :
    Nat → MapResult U → List T → MapResult U
  | _, out, [] => out
  | i, out, record :: rest => mapper.mapFrom (i + 1) (mapper.turn i out record) rest

/-- `RecordMapper::map_detailed`. -/
def RecordMapper.mapDetailed (mapper : RecordMapper T U ε) (records : List T) : MapResult U :=
  mapper.mapFrom 0 {} records

/-- `Mapper::map` of a `RecordMapper`. -/
def RecordMapper.map (mapper : RecordMapper T U ε) (records : List T) : Result (List U) :=
  .ok (mapper.mapDetailed records).records

/-- What becomes of a record. -/
def RecordMapper.image (mapper : RecordMapper T U ε) (record : T) : Option U :=
  (mapper.func record).toOption

/-- Why the record at a position is dropped. -/
def RecordMapper.skipReason (mapper : RecordMapper T U ε) (entry : T × Nat) : Option String :=
  match mapper.func entry.1 with
  | .ok _ => none
  | .error e => some s!"record {entry.2}: {e}"

/-- Every record is mapped in its place, or dropped with a reason that names it. -/
structure MapResult.Accounts (mapper : RecordMapper T U ε) (i : Nat) (records : List T)
    (before after : MapResult U) : Prop where
  records_eq : after.records = before.records ++ records.filterMap mapper.image
  reasons_eq : after.skipReasons =
    before.skipReasons ++ (records.zipIdx i).filterMap mapper.skipReason
  none_lost : after.records.length + after.skipped =
    before.records.length + before.skipped + records.length

namespace RecordMapper

variable (mapper : RecordMapper T U ε)

/-- One turn accounts for its record. -/
theorem turn_accounts (i : Nat) (out : MapResult U) (record : T) :
    MapResult.Accounts mapper i [record] out (mapper.turn i out record) := by
  unfold turn
  cases isMapped : mapper.func record with
  | ok mapped =>
      refine ⟨?_, ?_, ?_⟩
      · simp [image, isMapped, Except.toOption]
      · simp [skipReason, isMapped]
      · simp only [List.length_append, List.length_singleton]
        omega
  | error e =>
      refine ⟨?_, ?_, ?_⟩
      · simp [image, isMapped, Except.toOption]
      · simp [skipReason, isMapped]
      · simp only [List.length_singleton]
        omega

/-- The loop accounts for every record. -/
theorem mapFrom_accounts (i : Nat) (out : MapResult U) (records : List T) :
    MapResult.Accounts mapper i records out (mapper.mapFrom i out records) := by
  induction records generalizing i out with
  | nil => exact ⟨by simp [mapFrom], by simp [mapFrom], rfl⟩
  | cons record rest ih =>
      have now := mapper.turn_accounts i out record
      have later := ih (i + 1) (mapper.turn i out record)
      refine ⟨?_, ?_, ?_⟩
      · rw [mapFrom, later.records_eq, now.records_eq, List.append_assoc, ← List.filterMap_append,
          List.singleton_append]
      · rw [mapFrom, later.reasons_eq, now.reasons_eq, List.append_assoc, ← List.filterMap_append]
        rfl
      · rw [mapFrom, later.none_lost, now.none_lost, List.length_singleton, List.length_cons]
        omega

end RecordMapper

end AltairRs.Wf.Datasync
