import AltairRs.Effect.Program
import AltairRs.Wf.Datasync.Mapper

/-!
# One cycle of a sync

`Runner.run` fetches from its source, maps the whole batch, and writes the result
to its sink. The three calls are operations, each of which may fail; a failure is
returned under the name of its stage and ends the cycle.
-/

namespace AltairRs.Wf.Datasync

open Effect

variable {T U ε : Type}

/-- `WriteResult`: what a sink did with a batch. -/
structure WriteResult where
  inserted : Nat := 0
  updated : Nat := 0
  skipped : Nat := 0
deriving DecidableEq, Repr

/-- `SyncResult`, without the time the cycle took. -/
structure SyncResult where
  totalFetched : Nat := 0
  writeResult : WriteResult := {}
deriving DecidableEq, Repr

/-- The calls of a cycle to its source, mapper, and sink. -/
inductive RunnerOp (T U : Type) where
  | fetch
  | map (records : List T)
  | write (records : List U)
deriving DecidableEq, Repr

abbrev runnerSignature (T U : Type) : Signature where
  Op := RunnerOp T U
  Response
    | .fetch => Result (List T)
    | .map _ => Result (List U)
    | .write _ => Result WriteResult

abbrev RunnerProgram (T U α : Type) := Program (runnerSignature T U) α

def fetch : RunnerProgram T U (Result (List T)) :=
  Program.perform (runnerSignature T U) .fetch

def mapRecords (records : List T) : RunnerProgram T U (Result (List U)) :=
  Program.perform (runnerSignature T U) (.map records)

def write (records : List U) : RunnerProgram T U (Result WriteResult) :=
  Program.perform (runnerSignature T U) (.write records)

/-- What a runner says of its source and its sink in an error. -/
structure Runner where
  sourceName : String
  sinkName : String
deriving DecidableEq, Repr

/-- `Runner::run`. -/
def Runner.run (runner : Runner) : RunnerProgram T U (Result SyncResult) := do
  match ← fetch with
  | .error e => return .error (.activity s!"source {runner.sourceName}: fetch" (toString e))
  | .ok records =>
      let result : SyncResult := { totalFetched := records.length }
      if records.isEmpty then
        return .ok result
      match ← mapRecords records with
      | .error e => return .error (.activity "mapper: map" (toString e))
      | .ok mapped =>
          match ← write mapped with
          | .error e => return .error (.activity s!"sink {runner.sinkName}: write" (toString e))
          | .ok writeResult => return .ok { result with writeResult := writeResult }

variable {State : Type} {world : World (runnerSignature T U) State} {runner : Runner}
  {state final : State} {events : List (Event (runnerSignature T U))}

/-- The batch an event hands to the sink. -/
def batchOf : Event (runnerSignature T U) → Option (List U)
  | ⟨.write records, _⟩ => some records
  | _ => none

/-- The batches a trace hands to the sink, in order. -/
def batches (events : List (Event (runnerSignature T U))) : List (List U) :=
  events.filterMap batchOf

/-- What a cycle says of the records it was given: they are counted, each is in the
one batch or dropped with a reason, and only an empty source leaves the sink alone. -/
structure SyncResult.Accounts [ToString ε] (mapper : RecordMapper T U ε)
    (events : List (Event (runnerSignature T U))) (records : List T) (result : SyncResult) :
    Prop where
  fetched : (⟨.fetch, .ok records⟩ : Event (runnerSignature T U)) ∈ events
  counted : result.totalFetched = records.length
  batch : (batches events).flatten = records.filterMap mapper.image
  none_lost : (batches events).flatten.length + (mapper.mapDetailed records).skipped =
    result.totalFetched
  silent : batches events = [] ↔ records = []

end AltairRs.Wf.Datasync
