import AltairRs.Effect.Program
import AltairRs.Wf.Datasync.Partition

/-!
# The chunked sync

`chunkedSyncRun` lists partitions, filters them by the cursor, truncates to the
cap, and runs what is left in order, advancing the cursor after every success.
The five caller closures are the operations of `syncSignature`; each may answer
with an error, which the program returns.
-/

namespace AltairRs.Wf.Datasync

open Effect

variable {K : Type}

/-- The calls a sync makes to its caller's closures. -/
inductive SyncOp (K : Type) where
  | listPartitions
  | readCursor
  | runPartition (partition : Partition K)
  | advance (completed : K)
  | sleeper (duration : Nat)
deriving DecidableEq, Repr

/-- Every closure answers with its own result type; the sleeper cannot fail. -/
abbrev syncSignature (K : Type) : Signature where
  Op := SyncOp K
  Response
    | .listPartitions => Result (List (Partition K))
    | .readCursor => Result (Option K)
    | .runPartition _ => Result (PartitionResult K)
    | .advance _ => Result Unit
    | .sleeper _ => Unit

abbrev SyncProgram (K α : Type) := Program (syncSignature K) α

def listPartitions : SyncProgram K (Result (List (Partition K))) :=
  Program.perform (syncSignature K) .listPartitions

def readCursor : SyncProgram K (Result (Option K)) :=
  Program.perform (syncSignature K) .readCursor

def runPartition (partition : Partition K) : SyncProgram K (Result (PartitionResult K)) :=
  Program.perform (syncSignature K) (.runPartition partition)

def advance (completed : K) : SyncProgram K (Result Unit) :=
  Program.perform (syncSignature K) (.advance completed)

def sleeper (duration : Nat) : SyncProgram K Unit :=
  Program.perform (syncSignature K) (.sleeper duration)

/-- `ChunkedSyncConfig`; durations count nanoseconds. -/
structure ChunkedSyncConfig where
  jobName : String
  partitionSleep : Nat := 0
  maxPartitionsPerExecution : Nat := 0
deriving DecidableEq, Repr

/-- Whether the caller supplied the `read` and `advance` closures. -/
inductive Cursor where
  | none
  | some
deriving DecidableEq, Repr

/-- Advance past a finished partition, when there is a cursor to advance. -/
def advanceCursor (cursor : Cursor) (completed : K) : SyncProgram K (Result Unit) :=
  match cursor with
  | .some => advance completed
  | .none => return .ok ()

/-- Sleep after partition `i` of `n`, unless it is the last or there is no delay. -/
def sleepBetween (config : ChunkedSyncConfig) (n i : Nat) : SyncProgram K Unit :=
  if i < n - 1 ∧ config.partitionSleep ≠ 0 then
    sleeper config.partitionSleep
  else
    return ()

/-- The partition loop, at position `i` of the `n` partitions it handles. -/
def partitionLoop (config : ChunkedSyncConfig) (cursor : Cursor) (n : Nat) :
    Nat → List (Partition K) → ChunkedSyncSummary K →
      SyncProgram K (Result (ChunkedSyncSummary K))
  | _, [], summary => return .ok summary
  | i, partition :: rest, summary => do
      match ← runPartition partition with
      | .error e => return .error e
      | .ok result =>
          let summary := summary.record result
          match ← advanceCursor cursor partition.endKey with
          | .error e => return .error e
          | .ok _ =>
              sleepBetween config n i
              partitionLoop config cursor n (i + 1) rest summary

/-- Truncate to the cap, run the loop, and flag deferred work. -/
def processPartitions (config : ChunkedSyncConfig) (cursor : Cursor)
    (parts : List (Partition K)) (summary : ChunkedSyncSummary K) :
    SyncProgram K (Result (ChunkedSyncSummary K)) := do
  let deferred : Bool := 0 < config.maxPartitionsPerExecution ∧
    config.maxPartitionsPerExecution < parts.length
  let parts := if deferred then parts.take config.maxPartitionsPerExecution else parts
  match ← partitionLoop config cursor parts.length 0 parts summary with
  | .error e => return .error e
  | .ok summary => return .ok { summary with deferred := deferred }

/-- The partitions a cursor leaves: those starting at or after it. -/
def cursorFilter [LinearOrder K] (cursor : Option K) (parts : List (Partition K)) :
    List (Partition K) :=
  match cursor with
  | some c => parts.filter fun partition => c ≤ partition.start
  | none => parts

/-- `chunked_sync_run`. -/
def chunkedSyncRun [LinearOrder K] (config : ChunkedSyncConfig) (cursor : Cursor) :
    SyncProgram K (Result (ChunkedSyncSummary K)) := do
  if 0 < config.maxPartitionsPerExecution ∧ cursor = .none then
    return .error (.invalidInput
      ("max_partitions_per_execution requires a cursor — without one, the next execution would " ++
        "re-process the same prefix forever"))
  let summary : ChunkedSyncSummary K := { jobName := config.jobName }
  match ← listPartitions with
  | .error e => return .error e
  | .ok parts =>
      if parts.isEmpty then
        return .ok summary
      match cursor with
      | .some =>
          match ← readCursor with
          | .error e => return .error e
          | .ok current =>
              let parts := cursorFilter current parts
              if parts.isEmpty then
                return .ok summary
              processPartitions config cursor parts summary
      | .none => processPartitions config cursor parts summary

/-- With a cursor the sync lists, reads the cursor, and processes what it leaves. -/
theorem chunkedSyncRun_some [LinearOrder K] (config : ChunkedSyncConfig) :
    (chunkedSyncRun config .some : SyncProgram K _) =
      (listPartitions >>= fun
        | .error e => .done (.error e)
        | .ok parts =>
            if parts.isEmpty then .done (.ok { jobName := config.jobName })
            else readCursor >>= fun
              | .error e => .done (.error e)
              | .ok current =>
                  if (cursorFilter current parts).isEmpty then
                    .done (.ok { jobName := config.jobName })
                  else
                    processPartitions config .some (cursorFilter current parts)
                      { jobName := config.jobName }) := by
  have noRejection : ¬ (0 < config.maxPartitionsPerExecution ∧ Cursor.some = Cursor.none) := by
    simp
  unfold chunkedSyncRun
  rw [if_neg noRejection]
  rfl

end AltairRs.Wf.Datasync
