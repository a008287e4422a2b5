import Mathlib.Data.List.Basic
import AltairRs.Effect.Translation
import AltairRs.Wf.Datasync.Sync

/-!
# The partition walker outside a workflow

`iteratePartitions` is the walker for utilities and scripts. With a sleeper it
makes the calls that a sync without cursor and cap makes on the same partitions,
the result of each partition apart, which only the sync keeps.
-/

namespace AltairRs.Wf.Datasync

open Effect

variable {K : Type}

/-- The calls the walker makes to its caller's closures. -/
inductive WalkOp (K : Type) where
  | body (partition : Partition K)
  | sleeper (duration : Nat)
deriving DecidableEq, Repr

/-- A body may fail, the sleeper cannot. -/
abbrev walkSignature (K : Type) : Signature where
  Op := WalkOp K
  Response
    | .body _ => Result Unit
    | .sleeper _ => Unit

abbrev WalkProgram (K α : Type) := Program (walkSignature K) α

def body (partition : Partition K) : WalkProgram K (Result Unit) :=
  Program.perform (walkSignature K) (.body partition)

/-- Whether the caller supplied a sleeper. -/
inductive Sleeper where
  | none
  | some
deriving DecidableEq, Repr

/-- The subtraction of the machine: `none` is the underflow. -/
def checkedSub (n m : Nat) : Option Nat :=
  if m ≤ n then some (n - m) else none

/-- Sleep after partition `i` of `n`; the position of the last one is computed first. -/
def sleepAfter (sleep : Nat) (sleeper : Sleeper) (n i : Nat) : WalkProgram K (Option Unit) :=
  match checkedSub n 1 with
  | none => return none
  | some last =>
      if i < last ∧ sleep ≠ 0 ∧ sleeper = .some then
        some <$> Program.perform (walkSignature K) (.sleeper sleep)
      else
        return some ()

/-- The loop of the walker, at position `i` of `n`; `none` is the panic of an underflow. -/
def iterateLoop (sleep : Nat) (sleeper : Sleeper) (n : Nat) :
    Nat → List (Partition K) → WalkProgram K (Option (Result Unit))
  | _, [] => return some (.ok ())
  | i, partition :: rest => do
      match ← body partition with
      | .error e => return some (.error e)
      | .ok () =>
          match ← sleepAfter sleep sleeper n i with
          | none => return none
          | some () => iterateLoop sleep sleeper n (i + 1) rest

/-- `iterate_partitions`. -/
def iteratePartitions (parts : List (Partition K)) (sleep : Nat) (sleeper : Sleeper) :
    WalkProgram K (Option (Result Unit)) :=
  iterateLoop sleep sleeper parts.length 0 parts

/-- A success without its value. -/
def discard {α : Type} : Result α → Result Unit := Except.map fun _ => ()

/-- A body as a `run_partition` of which only the success or the failure is seen. -/
def walkTranslation (K : Type) : Translation (walkSignature K) (syncSignature K) where
  operation
    | .body partition => .runPartition partition
    | .sleeper duration => .sleeper duration
  response
    | .body _ => discard
    | .sleeper _ => id

/-- The body is a run of the partition. -/
theorem translate_body {α : Type} (partition : Partition K)
    (next : Result Unit → WalkProgram K α) :
    (walkTranslation K).translate (body partition >>= next) =
      runPartition partition >>= fun answer =>
        (walkTranslation K).translate (next (discard answer)) := rfl

/-- The position inside the list keeps the subtraction from underflowing. -/
theorem sleepAfter_of_pos {sleep n : Nat} (sleeper : Sleeper) (positive : 1 ≤ n) (i : Nat) :
    (sleepAfter sleep sleeper n i : WalkProgram K (Option Unit)) =
      if i < n - 1 ∧ sleep ≠ 0 ∧ sleeper = .some then
        some <$> Program.perform (walkSignature K) (.sleeper sleep)
      else
        return some () := by
  rw [sleepAfter, checkedSub, if_pos positive]

/-- A sleep in the loop is the sleep of the sync. -/
theorem translate_sleepAfter (config : ChunkedSyncConfig) {n : Nat} (positive : 1 ≤ n) (i : Nat) :
    (walkTranslation K).translate (sleepAfter config.partitionSleep .some n i) =
      some <$> sleepBetween config n i := by
  rw [sleepAfter_of_pos _ positive, sleepBetween]
  by_cases sleeps : i < n - 1 ∧ config.partitionSleep ≠ 0
  · rw [if_pos sleeps, if_pos ⟨sleeps.1, sleeps.2, rfl⟩]
    rfl
  · rw [if_neg sleeps, if_neg fun all => sleeps ⟨all.1, all.2.1⟩]
    rfl

/-- The walker's loop is the sync's loop without its summary. -/
theorem translate_iterateLoop (config : ChunkedSyncConfig) {n i : Nat}
    {parts : List (Partition K)} (counted : n = i + parts.length) (summary : ChunkedSyncSummary K) :
    (walkTranslation K).translate (iterateLoop config.partitionSleep .some n i parts) =
      (fun value => some (discard value)) <$> partitionLoop config .none n i parts summary := by
  induction parts generalizing i summary with
  | nil => rfl
  | cons partition rest ih =>
      rw [List.length_cons] at counted
      have positive : 1 ≤ n := by omega
      have later : n = i + 1 + rest.length := by omega
      have onward : ∀ result : PartitionResult K,
          (walkTranslation K).translate (sleepAfter config.partitionSleep .some n i >>= fun
            | none => return none
            | some () => iterateLoop config.partitionSleep .some n (i + 1) rest) =
          (fun value => some (discard value)) <$> (sleepBetween config n i >>= fun _ =>
            partitionLoop config .none n (i + 1) rest (summary.record result)) := by
        intro result
        rw [Translation.translate_bind, translate_sleepAfter config positive, map_eq_pure_bind,
          bind_assoc, map_bind]
        congr 1
        ext _
        exact ih later _
      rw [iterateLoop, translate_body, partitionLoop, map_bind]
      congr 1
      ext answer
      cases answer with
      | error e => rfl
      | ok result => exact onward result

/-- Without cap all partitions are run, and none is deferred. -/
theorem processPartitions_uncapped {config : ChunkedSyncConfig}
    (uncapped : config.maxPartitionsPerExecution = 0) (cursor : Cursor)
    (parts : List (Partition K)) (summary : ChunkedSyncSummary K) :
    processPartitions config cursor parts summary =
      (Except.map fun summary => { summary with deferred := false }) <$>
        partitionLoop config cursor parts.length 0 parts summary := by
  rw [processPartitions, uncapped, map_eq_pure_bind]
  congr 1
  ext outcome
  cases outcome <;> rfl

/-- Without cursor and cap the sync lists the partitions and runs them all. -/
theorem chunkedSyncRun_uncapped [LinearOrder K] {config : ChunkedSyncConfig}
    (uncapped : config.maxPartitionsPerExecution = 0) :
    (chunkedSyncRun config .none : SyncProgram K _) =
      (listPartitions >>= fun
        | .error e => .done (.error e)
        | .ok parts =>
            if parts.isEmpty then .done (.ok { jobName := config.jobName })
            else processPartitions config .none parts { jobName := config.jobName }) := by
  have notRejected : ¬ (0 < config.maxPartitionsPerExecution ∧ Cursor.none = Cursor.none) := by
    rw [uncapped]
    exact fun both => Nat.not_lt_zero _ both.1
  unfold chunkedSyncRun
  rw [if_neg notRejected]
  rfl

/-- What is left of the sync once the partitions are listed: the walker, and the summary. -/
theorem translate_iteratePartitions {config : ChunkedSyncConfig}
    (uncapped : config.maxPartitionsPerExecution = 0) (parts : List (Partition K))
    (summary : ChunkedSyncSummary K) :
    (walkTranslation K).translate (iteratePartitions parts config.partitionSleep .some) =
      (fun value => some (discard value)) <$> processPartitions config .none parts summary := by
  rw [iteratePartitions, translate_iterateLoop config (Nat.zero_add _).symm summary,
    processPartitions_uncapped uncapped, Functor.map_map]
  congr 1
  ext outcome
  cases outcome <;> rfl

/-- `sleepBetween` with the subtraction of the machine. -/
def sleepBetweenChecked (config : ChunkedSyncConfig) (n i : Nat) : SyncProgram K (Option Unit) :=
  match checkedSub n 1 with
  | none => return none
  | some last =>
      if i < last ∧ config.partitionSleep ≠ 0 then
        some <$> sleeper config.partitionSleep
      else
        return some ()

/-- `partitionLoop` with the subtraction of the machine; `none` is the panic of an underflow. -/
def partitionLoopChecked (config : ChunkedSyncConfig) (cursor : Cursor) (n : Nat) :
    Nat → List (Partition K) → ChunkedSyncSummary K →
      SyncProgram K (Option (Result (ChunkedSyncSummary K)))
  | _, [], summary => return some (.ok summary)
  | i, partition :: rest, summary => do
      match ← runPartition partition with
      | .error e => return some (.error e)
      | .ok result =>
          let summary := summary.record result
          match ← advanceCursor cursor partition.endKey with
          | .error e => return some (.error e)
          | .ok _ =>
              match ← sleepBetweenChecked config n i with
              | none => return none
              | some () => partitionLoopChecked config cursor n (i + 1) rest summary

/-- With a partition to come, the subtraction does not overflow. -/
theorem sleepBetweenChecked_of_pos (config : ChunkedSyncConfig) {n : Nat} (positive : 1 ≤ n)
    (i : Nat) :
    (sleepBetweenChecked config n i : SyncProgram K _) = some <$> sleepBetween config n i := by
  rw [sleepBetweenChecked, checkedSub, if_pos positive, sleepBetween]
  by_cases sleeps : i < n - 1 ∧ config.partitionSleep ≠ 0
  · rw [if_pos sleeps]
    exact if_pos sleeps
  · rw [if_neg sleeps]
    exact if_neg sleeps

/-- The sync's loop never underflows either. -/
theorem partitionLoopChecked_eq (config : ChunkedSyncConfig) (cursor : Cursor) {n i : Nat}
    {parts : List (Partition K)} (counted : n = i + parts.length) (summary : ChunkedSyncSummary K) :
    partitionLoopChecked config cursor n i parts summary =
      some <$> partitionLoop config cursor n i parts summary := by
  induction parts generalizing i summary with
  | nil => rfl
  | cons partition rest ih =>
      rw [List.length_cons] at counted
      have positive : 1 ≤ n := by omega
      have later : n = i + 1 + rest.length := by omega
      have onward : ∀ summary : ChunkedSyncSummary K,
          (sleepBetweenChecked config n i >>= fun
            | none => return none
            | some () => partitionLoopChecked config cursor n (i + 1) rest summary) =
          some <$> (sleepBetween config n i >>= fun _ =>
            partitionLoop config cursor n (i + 1) rest summary) := by
        intro summary
        rw [sleepBetweenChecked_of_pos config positive, map_eq_pure_bind, bind_assoc, map_bind]
        congr 1
        ext _
        exact ih later summary
      rw [partitionLoopChecked, partitionLoop, map_bind]
      congr 1
      ext answer
      cases answer with
      | error e => rfl
      | ok result =>
          simp only [map_bind]
          congr 1
          ext advanced
          cases advanced with
          | error e => rfl
          | ok _ => exact onward _

/-- A body call that succeeded. -/
def succeeded (partition : Partition K) : Event (walkSignature K) := ⟨.body partition, .ok ()⟩

/-- A body call that failed. -/
def failed (partition : Partition K) (e : Error) : Event (walkSignature K) :=
  ⟨.body partition, .error e⟩

/-- Calls with a sleep between any two, if there is a delay. -/
def spaced (sleep : Nat) (calls : List (Event (walkSignature K))) :
    List (Event (walkSignature K)) :=
  if sleep = 0 then calls else calls.intersperse ⟨.sleeper sleep, ()⟩

/-- The calls of a whole walk and what it returns: either every partition succeeds, or those
before the first failing one do, and its error is returned. -/
inductive Walked (parts : List (Partition K)) (sleep : Nat) :
    List (Event (walkSignature K)) → Option (Result Unit) → Prop where
  | all : Walked parts sleep (spaced sleep (parts.map succeeded)) (some (.ok ()))
  | stopped {before : List (Partition K)} {partition : Partition K} {rest : List (Partition K)}
      (e : Error) (split : parts = before ++ partition :: rest) :
      Walked parts sleep (spaced sleep (before.map succeeded ++ [failed partition e]))
        (some (.error e))

@[simp] theorem spaced_nil (sleep : Nat) : spaced (K := K) sleep [] = [] := by
  rw [spaced]
  split <;> rfl

@[simp] theorem spaced_singleton (sleep : Nat) (call : Event (walkSignature K)) :
    spaced sleep [call] = [call] := by
  rw [spaced]
  split <;> rfl

/-- One more call, with its pause. -/
theorem spaced_cons {sleep : Nat} (call : Event (walkSignature K))
    {calls : List (Event (walkSignature K))} (nonempty : calls ≠ []) :
    spaced sleep (call :: calls) =
      if sleep = 0 then call :: spaced sleep calls
      else call :: ⟨.sleeper sleep, ()⟩ :: spaced sleep calls := by
  obtain ⟨next, calls, rfl⟩ := List.exists_cons_of_ne_nil nonempty
  by_cases awake : sleep = 0
  · rw [if_pos awake, spaced, spaced, if_pos awake, if_pos awake]
  · rw [if_neg awake, spaced, spaced, if_neg awake, if_neg awake, List.intersperse_cons_cons]

/-- Without partitions there is nothing to walk. -/
theorem Walked.nil (sleep : Nat) : Walked ([] : List (Partition K)) sleep [] (some (.ok ())) := by
  have walked : Walked ([] : List (Partition K)) sleep _ _ := .all
  rwa [List.map_nil, spaced_nil] at walked

/-- No sleep follows the last partition. -/
theorem Walked.last (partition : Partition K) (sleep : Nat) :
    Walked [partition] sleep [succeeded partition] (some (.ok ())) := by
  have walked : Walked [partition] sleep _ _ := .all
  rwa [List.map_singleton, spaced_singleton] at walked

/-- No sleep follows a failure. -/
theorem Walked.fails (partition : Partition K) (rest : List (Partition K)) (sleep : Nat)
    (e : Error) :
    Walked (partition :: rest) sleep [failed partition e] (some (.error e)) := by
  have walked : Walked (partition :: rest) sleep
      (spaced sleep ([].map succeeded ++ [failed partition e])) (some (.error e)) := .stopped e rfl
  rwa [List.map_nil, List.nil_append, spaced_singleton] at walked

/-- A success before a walk, with the sleep between them. -/
theorem Walked.cons (partition : Partition K) {rest : List (Partition K)} {sleep : Nat}
    {events : List (Event (walkSignature K))} {value : Option (Result Unit)}
    (more : rest ≠ []) (walked : Walked rest sleep events value) :
    Walked (partition :: rest) sleep
      (if sleep = 0 then succeeded partition :: events
        else succeeded partition :: ⟨.sleeper sleep, ()⟩ :: events) value := by
  cases walked with
  | all =>
      rw [← spaced_cons _ (mt List.map_eq_nil_iff.mp more)]
      exact .all
  | @stopped before failing after e split =>
      subst split
      rw [← spaced_cons _ (List.append_ne_nil_of_right_ne_nil _ (List.cons_ne_nil _ _))]
      have walked : Walked (partition :: before ++ failing :: after) sleep
          (spaced sleep ((partition :: before).map succeeded ++ [failed failing e]))
          (some (.error e)) := .stopped e rfl
      exact walked

/-- Inside the list the loop walks what is left of it. -/
theorem iterateLoop_walked {State : Type*} {world : World (walkSignature K) State} {sleep n i : Nat}
    {parts : List (Partition K)} (counted : n = i + parts.length) {state final : State}
    {events : List (Event (walkSignature K))} {value : Option (Result Unit)}
    (run : Returns world (iterateLoop sleep .some n i parts) state events value final) :
    Walked parts sleep events value := by
  induction parts generalizing i state events with
  | nil =>
      obtain ⟨rfl, isValue, rfl⟩ := run.of_done
      cases isValue
      exact .nil sleep
  | cons partition rest ih =>
      rw [List.length_cons] at counted
      have positive : 1 ≤ n := by omega
      have later : n = i + 1 + rest.length := by omega
      rw [iterateLoop] at run
      cases run with
      | step answered run =>
          rename_i here events outcome
          cases outcome with
          | error e =>
              obtain ⟨rfl, isValue, rfl⟩ := run.of_done
              cases isValue
              exact .fails partition rest sleep e
          | ok success =>
              change Returns world (sleepAfter sleep .some n i >>= fun
                | none => return none
                | some () => iterateLoop sleep .some n (i + 1) rest) here events value final at run
              rw [sleepAfter_of_pos _ positive] at run
              by_cases last : rest = []
              · subst last
                have atEnd : ¬ i < n - 1 := by
                  rw [List.length_nil] at later
                  omega
                rw [if_neg fun all => atEnd all.1] at run
                obtain ⟨rfl, isValue, rfl⟩ := run.of_done
                cases isValue
                exact .last partition sleep
              · have inside : i < n - 1 := by
                  have := List.length_pos_iff.mpr last
                  omega
                by_cases awake : sleep = 0
                · rw [if_neg fun all => all.2.1 awake] at run
                  have walked := (ih later run).cons partition last
                  rw [if_pos awake] at walked
                  exact walked
                · rw [if_pos ⟨inside, awake, rfl⟩] at run
                  cases run with
                  | step slept run =>
                      have walked := (ih later run).cons partition last
                      rw [if_neg awake] at walked
                      exact walked

/-- The answered call of the walker that one of the sync stands for. -/
def walkEvent : Event (syncSignature K) → Option (Event (walkSignature K))
  | ⟨.runPartition partition, response⟩ => some ⟨.body partition, discard response⟩
  | ⟨.sleeper duration, _⟩ => some ⟨.sleeper duration, ()⟩
  | _ => none

/-- The walk is read back from what it shows. -/
theorem filterMap_walkEvent {events : List (Event (walkSignature K))}
    {shown : List (Event (syncSignature K))}
    (shows : List.Forall₂ (walkTranslation K).Shows events shown) :
    shown.filterMap walkEvent = events := by
  induction shows with
  | nil => rfl
  | @cons event answered events shown first rest ih =>
      have same : walkEvent answered = some event := by
        cases first with
        | intro request answer => cases request <;> rfl
      rw [List.filterMap_cons_some same, ih]

/-- The sync after the listing. -/
def syncListed (config : ChunkedSyncConfig) (parts : List (Partition K)) :
    SyncProgram K (Result (ChunkedSyncSummary K)) :=
  if parts.isEmpty then .done (.ok { jobName := config.jobName })
  else processPartitions config .none parts { jobName := config.jobName }

/-- Seen as the walker, the sync after the listing returns what the walker returns. -/
theorem returns_translate_iteratePartitions {State : Type*} {config : ChunkedSyncConfig}
    (uncapped : config.maxPartitionsPerExecution = 0) (parts : List (Partition K))
    {sync : World (syncSignature K) State} {state final : State}
    {events : List (Event (syncSignature K))} {outcome : Result Unit} :
    Returns sync ((walkTranslation K).translate
        (iteratePartitions parts config.partitionSleep .some)) state events (some outcome) final ↔
      ∃ summary, Returns sync (syncListed config parts) state events summary final ∧
        discard summary = outcome := by
  have seen : (walkTranslation K).translate
      (iteratePartitions parts config.partitionSleep .some) =
        (fun value => some (discard value)) <$> syncListed config parts := by
    cases parts with
    | nil => rfl
    | cons partition rest => exact translate_iteratePartitions uncapped _ _
  rw [seen, Reaches.map_iff]
  simp only [Option.some_inj]

/-- Run on the same partitions with the same delay, in worlds where a body succeeds, fails and
acts as a `run_partition` does, the walker and the sync without cursor and cap make the same
calls with the same answers, and return success or the same error together. The calls are the
partitions in order with a sleep after each success that is not the last partition, none with
a zero delay, and in neither loop does `n - 1` underflow. -/
theorem iteratePartitions_agrees [LinearOrder K] {State : Type*} {config : ChunkedSyncConfig}
    (uncapped : config.maxPartitionsPerExecution = 0) (parts : List (Partition K))
    {walk : World (walkSignature K) State} {sync : World (syncSignature K) State}
    (alike : (walkTranslation K).Agrees walk sync) {start here : State}
    (lists : ∀ response next, sync.Answers start .listPartitions response next ↔
      response = .ok parts ∧ next = here) :
    (∀ trace outcome final,
      Returns walk (iteratePartitions parts config.partitionSleep .some) here trace (some outcome)
          final ↔
        ∃ events summary, Returns sync (chunkedSyncRun config .none) start events summary final ∧
          events.filterMap walkEvent = trace ∧ discard summary = outcome) ∧
      (∀ trace value final,
        Returns walk (iteratePartitions parts config.partitionSleep .some) here trace value final →
          Walked parts config.partitionSleep trace value) ∧
      ∀ summary, partitionLoopChecked config .none parts.length 0 parts summary =
        some <$> partitionLoop config .none parts.length 0 parts summary := by
  refine ⟨fun trace outcome final => ?_, fun trace value final run => ?_, fun summary => ?_⟩
  · rw [chunkedSyncRun_uncapped uncapped]
    constructor
    · intro run
      obtain ⟨shown, translated, shows⟩ := alike.translated run
      obtain ⟨summary, remaining, same⟩ :=
        (returns_translate_iteratePartitions uncapped parts).mp translated
      have seen : (⟨.listPartitions, .ok parts⟩ :: shown).filterMap walkEvent = trace :=
        (List.filterMap_cons_none rfl).trans (filterMap_walkEvent shows)
      exact ⟨_, summary, .step ((lists _ _).mpr ⟨rfl, rfl⟩) remaining, seen, same⟩
    · rintro ⟨events, summary, run, rfl, rfl⟩
      cases run with
      | step listed remaining =>
          obtain ⟨rfl, rfl⟩ := (lists _ _).mp listed
          obtain ⟨trace, run, shows⟩ := alike.of_translated
            ((returns_translate_iteratePartitions uncapped parts).mpr ⟨summary, remaining, rfl⟩)
          rw [List.filterMap_cons_none rfl, filterMap_walkEvent shows]
          exact run
  · exact iterateLoop_walked (Nat.zero_add _).symm run
  · exact partitionLoopChecked_eq config .none (Nat.zero_add _).symm summary

/-- Two partitions, of which the second fails. -/
def secondFails : Handler (syncSignature Nat) Unit := fun _ operation =>
  match operation with
  | .listPartitions => (.ok [⟨0, 10⟩, ⟨10, 20⟩], ())
  | .readCursor => (.ok none, ())
  | .runPartition partition =>
      (if partition.start = 0 then .ok ⟨0, 10, 5, 5, 0, 0⟩
        else .error (.activity "copy" "connection reset"), ())
  | .advance _ => (.ok (), ())
  | .sleeper _ => ((), ())

/-- The configuration of a sync without cap. -/
def copyConfig : ChunkedSyncConfig := ⟨"copy", 3, 0⟩

/-- A body that fails as the second partition does. -/
def secondBodyFails : Handler (walkSignature Nat) Unit := fun _ operation =>
  match operation with
  | .body partition => (discard (secondFails () (.runPartition partition)).1, ())
  | .sleeper _ => ((), ())

/-- Both bodies fail on the second partition. -/
theorem secondFails_alike :
    (walkTranslation Nat).Agrees secondBodyFails.world secondFails.world := by
  intro state request response next
  cases request with
  | body partition =>
      constructor
      · rintro ⟨⟩
        exact ⟨_, rfl, rfl⟩
      · rintro ⟨answer, ⟨⟩, rfl⟩
        rfl
  | sleeper duration =>
      constructor
      · rintro ⟨⟩
        exact ⟨(), rfl, rfl⟩
      · rintro ⟨answer, ⟨⟩, rfl⟩
        rfl

/-- The second of two partitions fails, after a pause. -/
theorem iteratePartitions_agrees_secondFails :
    ∃ events summary, Returns secondFails.world (chunkedSyncRun copyConfig .none) () events
        summary () ∧
      events.filterMap walkEvent =
        [succeeded ⟨0, 10⟩, ⟨.sleeper 3, ()⟩,
          failed ⟨10, 20⟩ (.activity "copy" "connection reset")] ∧
      discard summary = .error (.activity "copy" "connection reset") := by
  have lists : ∀ response next, secondFails.world.Answers () .listPartitions response next ↔
      response = .ok [⟨0, 10⟩, ⟨10, 20⟩] ∧ next = () := by
    intro response next
    constructor
    · rintro ⟨⟩
      exact ⟨rfl, rfl⟩
    · rintro ⟨rfl, rfl⟩
      rfl
  have uncapped : copyConfig.maxPartitionsPerExecution = 0 := rfl
  have agrees := (iteratePartitions_agrees uncapped _ secondFails_alike lists).1
  exact (agrees _ _ _).mp (secondBodyFails.eval_returns (iteratePartitions _ 3 .some) ())

end AltairRs.Wf.Datasync
