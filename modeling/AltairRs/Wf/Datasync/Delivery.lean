import Mathlib.Data.Set.Lattice
import AltairRs.Effect.Expansion
import AltairRs.Effect.Policy
import AltairRs.Effect.Translation
import AltairRs.Wf.Datasync.CrashSafety
import AltairRs.Wf.Datasync.Runner

/-!
# Every record reaches the sink

A chunked sync that runs each partition as a cycle of a `Runner`, into a sink that
keeps a row once however often it is written. The sync is expanded: a crash may fall
between any two calls of a cycle, and a write that fails may have kept some of its
rows. What the sink holds in the end is what one uninterrupted sync would have
written.
-/

namespace AltairRs.Wf.Datasync

open Effect

variable {K T U ε : Type}

/-- The durable cursor and the rows the sink holds. -/
structure JobState (K U : Type) where
  cursor : CursorStore K
  rows : Set U

/-- What every partition holds, and how its records are mapped. -/
structure Contents (K T U ε : Type) where
  held : Partition K → List T
  mapper : RecordMapper T U ε

/-- The rows a partition comes to. -/
def Contents.rows (contents : Contents K T U ε) (partition : Partition K) : Set U :=
  { row | ∃ record ∈ contents.held partition, contents.mapper.image record = some row }

/-- The rows a plan comes to. -/
def Contents.planned (contents : Contents K T U ε) (parts : List (Partition K)) : Set U :=
  { row | ∃ partition ∈ parts, row ∈ contents.rows partition }

/-- Some of the rows were kept, and all of them if that is what the answer says. -/
structure Keeps (rows : Set U) (isOk : Prop) (before after : JobState K U) : Prop where
  cursor_eq : after.cursor = before.cursor
  kept : before.rows ⊆ after.rows
  fresh : after.rows ⊆ before.rows ∪ rows
  all : isOk → rows ⊆ after.rows

/-- A sink that keeps a row once, and the plan and cursor of a durable world. Any call
may fail, and a partition that fails may have written some of its rows. -/
def deliveryWorld (parts : List (Partition K)) (contents : Contents K T U ε) :
    World (syncSignature K) (JobState K U) where
  Answers
    | before, .runPartition partition, response, after =>
        Keeps (contents.rows partition) (∃ result, response = .ok result) before after
    | before, operation, response, after =>
        after.rows = before.rows ∧
          (durableWorld parts).Answers before.cursor operation response after.cursor

variable {parts : List (Partition K)} {contents : Contents K T U ε} {partition : Partition K}
  {before after : JobState K U}

/-- Nothing written keeps everything, and is all of nothing. -/
theorem Keeps.unchanged {rows : Set U} {isOk : Prop} (all : isOk → rows ⊆ before.rows) :
    Keeps rows isOk before before :=
  ⟨rfl, subset_rfl, Set.subset_union_left, all⟩

/-- An answer that promises less is allowed too. -/
theorem Keeps.weaken {rows : Set U} {isOk less : Prop} (keeps : Keeps rows isOk before after)
    (implies : less → isOk) : Keeps rows less before after :=
  { keeps with all := fun holds => keeps.all (implies holds) }

/-- The cursor is that of the durable world. -/
theorem deliveryWorld_cursor (operation : SyncOp K)
    (response : (syncSignature K).Response operation)
    (answer : (deliveryWorld parts contents).Answers before operation response after) :
    (durableWorld parts).Answers before.cursor operation response after.cursor := by
  cases operation with
  | runPartition partition => exact answer.cursor_eq
  | _ => exact answer.2

/-- Rows stay, and those of a partition that was run are there. -/
theorem rows_of_reaches {α : Type} {program remainder : SyncProgram K α}
    {events : List (Event (syncSignature K))}
    (reaches : Reaches (deliveryWorld parts contents) program before events remainder after) :
    before.rows ⊆ after.rows ∧
      ∀ partition, RunOk events partition → contents.rows partition ⊆ after.rows := by
  induction reaches with
  | refl => exact ⟨subset_rfl, fun partition ran => nomatch ran.choose_spec⟩
  | step answer _ ih =>
      rename_i operation _ here response next events _ _ _
      obtain ⟨later, ofRun⟩ := ih
      have kept : here.rows ⊆ next.rows := by
        cases operation with
        | runPartition partition => exact answer.kept
        | _ => exact answer.1.ge
      refine ⟨kept.trans later, fun partition ran => ?_⟩
      obtain ⟨result, member⟩ := ran
      rcases List.mem_cons.mp member with same | inRest
      · cases same
        exact (answer.all ⟨result, rfl⟩).trans later
      · exact ofRun partition ⟨result, inRest⟩

/-- A call that is not for a partition outside the plan. -/
def Listed (parts : List (Partition K)) (operation : SyncOp K) : Prop :=
  ∀ partition, operation = .runPartition partition → partition ∈ parts

/-- Such a call writes planned rows only. -/
theorem planned_of_answer (operation : SyncOp K) {response : (syncSignature K).Response operation}
    (listed : Listed parts operation) (planned : before.rows ⊆ contents.planned parts)
    (answer : (deliveryWorld parts contents).Answers before operation response after) :
    after.rows ⊆ contents.planned parts := by
  cases operation with
  | runPartition partition =>
      refine answer.fresh.trans (Set.union_subset planned fun row member => ?_)
      exact ⟨partition, listed partition rfl, member⟩
  | _ => exact answer.1.le.trans planned

/-- The loop runs the partitions it is given. -/
theorem partitionLoop_listed {config : ChunkedSyncConfig} {n i : Nat} {todo : List (Partition K)}
    {summary : ChunkedSyncSummary K} (all : ∀ partition ∈ todo, partition ∈ parts) :
    Requests (Listed parts) (partitionLoop config .some n i todo summary) := by
  induction todo generalizing i summary with
  | nil => exact trivial
  | cons partition rest ih =>
      obtain ⟨now, later⟩ := List.forall_mem_cons.mp all
      refine ⟨fun other same => ?_, fun ran => ?_⟩
      · cases same
        exact now
      · cases ran with
        | error e => exact trivial
        | ok result =>
            refine ⟨nofun, fun advanced => ?_⟩
            cases advanced with
            | error e => exact trivial
            | ok _ =>
                change Requests _ (sleepBetween config n i >>= fun _ =>
                  partitionLoop config .some n (i + 1) rest (summary.record result))
                apply Requests.bind
                · unfold sleepBetween
                  split
                  · exact Requests.perform nofun
                  · exact trivial
                · exact fun _ => ih later

/-- Only listed partitions are processed. -/
theorem processPartitions_listed {config : ChunkedSyncConfig} {todo : List (Partition K)}
    {summary : ChunkedSyncSummary K} (all : ∀ partition ∈ todo, partition ∈ parts) :
    Requests (Listed parts) (processPartitions config .some todo summary) := by
  unfold processPartitions
  apply Requests.bind
  · apply partitionLoop_listed
    split
    · exact fun partition member => all partition (List.mem_of_mem_take member)
    · exact all
  · intro returned
    cases returned with
    | error e => exact trivial
    | ok summary => exact trivial

section Order

variable [LinearOrder K]

/-- The cursor leaves listed partitions. -/
theorem mem_of_mem_cursorFilter {current : Option K} {parts : List (Partition K)}
    (member : partition ∈ cursorFilter current parts) : partition ∈ parts := by
  cases current with
  | none => exact member
  | some key => exact (List.mem_filter.mp member).1

/-- One execution writes planned rows only. -/
theorem chunkedSyncRun_planned (config : ChunkedSyncConfig)
    (history : List (Event (syncSignature K))) (planned : before.rows ⊆ contents.planned parts) :
    Safe (deliveryWorld parts contents)
      { Inv := fun _ state => state.rows ⊆ contents.planned parts }
      (fun _ _ _ => True) (chunkedSyncRun config .some) history before := by
  rw [chunkedSyncRun_some]
  refine ⟨planned, fun listed here answer => ⟨trivial, ?_⟩⟩
  have plannedHere := planned_of_answer .listPartitions nofun planned answer
  cases listed with
  | error e => exact ⟨plannedHere, trivial⟩
  | ok listed =>
      cases answer.2.2 listed rfl
      change Safe _ _ _ (if parts.isEmpty then _ else _) _ _
      split
      · exact ⟨plannedHere, trivial⟩
      · refine ⟨plannedHere, fun current after answer => ⟨trivial, ?_⟩⟩
        have plannedAfter := planned_of_answer .readCursor nofun plannedHere answer
        cases current with
        | error e => exact ⟨plannedAfter, trivial⟩
        | ok current =>
            change Safe _ _ _ (if (cursorFilter current parts).isEmpty then _ else _) _ _
            split
            · exact ⟨plannedAfter, trivial⟩
            · have listed : Requests (Listed parts) (processPartitions config .some
                  (cursorFilter current parts) { jobName := config.jobName }) :=
                processPartitions_listed fun _ member => mem_of_mem_cursorFilter member
              exact listed.safe (fun _ operation _ _ isListed now answer =>
                planned_of_answer operation isListed now answer) plannedAfter

/-- Whatever the executions of a sync run, they write rows of the plan; those of the
partitions behind the cursor are all there. -/
theorem delivered_of_executions (plan : PartitionPlan K)
    {history : List (Event (syncSignature K))} {state : JobState K U}
    (executions : Executions (deliveryWorld plan.parts contents) CursoredSync ⟨⊥, ∅⟩ history
      state) :
    state.rows ⊆ contents.planned plan.parts ∧
      ∀ partition, RunOk history partition → contents.rows partition ⊆ state.rows := by
  induction executions with
  | nil => exact ⟨Set.empty_subset _, fun partition ran => nomatch ran.choose_spec⟩
  | snoc _ member execution ih =>
      obtain ⟨config, rfl⟩ := member
      obtain ⟨planned, ofRun⟩ := ih
      obtain ⟨kept, ofLater⟩ := rows_of_reaches execution
      refine ⟨(chunkedSyncRun_planned config [] planned).inv_of_reaches execution,
        fun partition ran => ?_⟩
      obtain ⟨result, member⟩ := ran
      rcases List.mem_append.mp member with earlier | later
      · exact (ofRun partition ⟨result, earlier⟩).trans kept
      · exact ofLater partition ⟨result, later⟩

end Order

variable [ToString ε]

/-- The calls of the sync itself, and those of the cycle of a partition. -/
abbrev jobSignature (K T U : Type) : Signature where
  Op := SyncOp K ⊕ Partition K × RunnerOp T U
  Response
    | .inl operation => (syncSignature K).Response operation
    | .inr (_, operation) => (runnerSignature T U).Response operation

/-- The calls of a cycle, for a partition. -/
def cycleOf (partition : Partition K) :
    Translation (runnerSignature T U) (jobSignature K T U) where
  operation operation := .inr (partition, operation)
  response _ answer := answer

/-- The counts of a cycle, as the result of its partition. -/
def SyncResult.ofPartition (partition : Partition K) (result : SyncResult) : PartitionResult K :=
  ⟨partition.start, partition.endKey, result.totalFetched, result.writeResult.inserted,
    result.writeResult.updated, result.writeResult.skipped⟩

/-- A `run_partition` that drives a runner over the partition. -/
def Runner.runPartition (runner : Runner) (partition : Partition K) :
    Program (jobSignature K T U) (Result (PartitionResult K)) := do
  let result ← (cycleOf partition).translate runner.run
  return result.map (SyncResult.ofPartition partition)

/-- The closures of a sync whose partitions a runner runs. -/
def Runner.closures (runner : Runner) : Expansion (syncSignature K) (jobSignature K T U)
  | .runPartition partition => runner.runPartition partition
  | operation => Program.perform (jobSignature K T U) (.inl operation)

/-- The same world, with a partition run call by call: sources that hold their
contents, and writes that may keep some of their rows and fail. -/
def jobWorld (parts : List (Partition K)) (contents : Contents K T U ε) :
    World (jobSignature K T U) (JobState K U) where
  Answers
    | _, .inl (.runPartition _), _, _ => False
    | before, .inl operation, response, after =>
        after.rows = before.rows ∧
          (durableWorld parts).Answers before.cursor operation response after.cursor
    | before, .inr (partition, .fetch), response, after =>
        after = before ∧ ∀ records, response = .ok records → records = contents.held partition
    | before, .inr (_, .map records), response, after =>
        after = before ∧ response = contents.mapper.map records
    | before, .inr (_, .write records), response, after =>
        Keeps { row | row ∈ records } (∃ written, response = .ok written) before after

/-- The batch of a partition is its rows. -/
theorem Contents.rows_eq (contents : Contents K T U ε) (partition : Partition K) :
    { row | row ∈ (contents.mapper.mapDetailed (contents.held partition)).records } =
      contents.rows partition := by
  have mapped := (contents.mapper.mapFrom_accounts 0 {} (contents.held partition)).records_eq
  ext row
  simp [RecordMapper.mapDetailed, mapped, Contents.rows]

/-- A cycle has written some of the rows of its partition wherever it is cut, and all
of them when it returns `Ok`. -/
theorem Runner.runPartition_safe (runner : Runner) (partition : Partition K)
    (before : JobState K U) :
    Safe (jobWorld parts contents)
      { Inv := fun _ after => Keeps (contents.rows partition) False before after }
      (fun value _ after =>
        Keeps (contents.rows partition) (∃ result, value = .ok result) before after)
      (runner.runPartition partition) [] before := by
  have start : Keeps (contents.rows partition) False before before := .unchanged False.elim
  refine ⟨start, fun fetched here answer => ⟨trivial, ?_⟩⟩
  obtain ⟨rfl, isHeld⟩ := answer
  cases fetched with
  | error e => exact ⟨start, .unchanged nofun⟩
  | ok records =>
      cases isHeld records rfl
      cases isRecords : contents.held partition with
      | nil =>
          refine ⟨start, .unchanged fun _ => ?_⟩
          rintro row ⟨record, member, -⟩
          rw [isRecords] at member
          cases member
      | cons record rest =>
          refine ⟨start, fun mapped here answer => ⟨trivial, ?_⟩⟩
          obtain ⟨rfl, rfl⟩ := answer
          refine ⟨start, fun written after answer => ⟨trivial, ?_⟩⟩
          have keeps : Keeps (contents.rows partition) (∃ result, written = .ok result) here
              after := by
            rw [← contents.rows_eq, isRecords]
            exact answer
          cases written with
          | error e => exact ⟨keeps.weaken False.elim, keeps.weaken nofun⟩
          | ok written => exact ⟨keeps.weaken False.elim, keeps.weaken fun _ => ⟨written, rfl⟩⟩

/-- The other closures are the calls they stand for. -/
theorem Runner.closures_plain (runner : Runner) {operation : SyncOp K}
    (isPlain : ∀ partition, operation ≠ .runPartition partition) :
    (runner.closures : Expansion (syncSignature K) (jobSignature K T U)) operation =
      Program.perform (jobSignature K T U) (.inl operation) := by
  cases operation with
  | runPartition partition => exact absurd rfl (isPlain partition)
  | _ => rfl

/-- They are answered alike. -/
theorem jobWorld_answers {operation : SyncOp K}
    {response : (syncSignature K).Response operation}
    (answer : (jobWorld parts contents).Answers before (.inl operation) response after) :
    (deliveryWorld parts contents).Answers before operation response after := by
  cases operation with
  | runPartition partition => exact answer.elim
  | _ => exact answer

/-- The closures do what a partition run in one step may do. -/
theorem Runner.closures_implement (runner : Runner) :
    (runner.closures : Expansion (syncSignature K) (jobSignature K T U)).Implements
      (jobWorld parts contents) (deliveryWorld parts contents) id := by
  constructor
  · intro request before events response after run
    by_cases isRun : ∃ partition, request = .runPartition partition
    · obtain ⟨partition, rfl⟩ := isRun
      exact (runner.runPartition_safe partition before).post_of_returns run
    · rw [runner.closures_plain (not_exists.mp isRun)] at run
      exact jobWorld_answers (Reaches.of_perform run)
  · intro request before events remainder after reaches
    by_cases isRun : ∃ partition, request = .runPartition partition
    · obtain ⟨partition, rfl⟩ := isRun
      have keeps := (runner.runPartition_safe partition before).inv_of_reaches reaches
      exact .inr ⟨.error (.invalidInput ""), keeps.weaken nofun⟩
    · rw [runner.closures_plain (not_exists.mp isRun)] at reaches
      rcases Reaches.of_perform_cut reaches with unchanged | ⟨response, answer⟩
      · exact .inl unchanged
      · exact .inr ⟨response, jobWorld_answers answer⟩

/-- However often a sync is cut and repeated, between any two calls of any cycle, the
sink never holds a row that the plan does not come to, and holds all those of the
partitions behind the cursor. After an execution that returns a summary without
deferred work it holds exactly the rows of the plan. -/
theorem chunkedSyncRun_delivers [LinearOrder K] (plan : PartitionPlan K)
    (contents : Contents K T U ε) (runner : Runner) (config : ChunkedSyncConfig)
    {history : List (Event (jobSignature K T U))} {state : JobState K U}
    (executions : Executions (jobWorld plan.parts contents)
      (runner.closures.Expands CursoredSync) ⟨⊥, ∅⟩ history state) :
    (∀ partition ∈ plan.parts, (partition.start : CursorStore K) < state.cursor →
      contents.rows partition ⊆ state.rows) ∧
    ∀ events remainder next,
      Reaches (jobWorld plan.parts contents)
        (runner.closures.expand (chunkedSyncRun config .some)) state events remainder next →
      next.rows ⊆ contents.planned plan.parts ∧
      ∀ summary, remainder = .done (.ok summary) → summary.deferred = false →
        next.rows = contents.planned plan.parts := by
  obtain ⟨shown, shownExecutions⟩ := runner.closures_implement.executions executions
  obtain ⟨planned, ofRun⟩ := delivered_of_executions plan shownExecutions
  have durable := shownExecutions.simulates JobState.cursor fun _ operation response _ =>
    deliveryWorld_cursor operation response
  have covered := covered_of_executions plan durable
  refine ⟨fun partition member below => ofRun partition (covered partition member below),
    fun events remainder next reaches => ?_⟩
  obtain ⟨more, left, shownReaches, sameReturn⟩ := runner.closures_implement.reaches reaches
  have within := (chunkedSyncRun_planned config [] planned).inv_of_reaches shownReaches
  refine ⟨within, fun summary returned complete => within.antisymm ?_⟩
  have isDone := sameReturn _ returned
  have cut := shownReaches.simulates JobState.cursor fun _ operation response _ =>
    deliveryWorld_cursor operation response
  rw [isDone] at cut
  have all := ((chunkedSyncRun_safe plan config covered).post_of_returns cut) summary rfl
    complete
  obtain ⟨kept, ofLater⟩ := rows_of_reaches shownReaches
  rintro row ⟨partition, member, inRows⟩
  obtain ⟨result, ran⟩ := all partition member
  rcases List.mem_append.mp ran with earlier | later
  · exact kept (ofRun partition ⟨result, earlier⟩ inRows)
  · exact ofLater partition ⟨result, later⟩ inRows

/-- Sources that hold the keys of their range, and a mapper that drops the odd ones. -/
def evenKeys : Contents Nat Nat Nat String where
  held partition := (List.range (partition.endKey - partition.start)).map (partition.start + ·)
  mapper := ⟨"even", fun record => if record % 2 = 0 then .ok record else .error "odd"⟩

/-- A runner from a source of keys to a table. -/
def keysRunner : Runner := ⟨"keys", "table"⟩

/-- The sync of two ranges, with the cycles of this runner. -/
def twoRangeCycles : Program (jobSignature Nat Nat Nat) (Result (ChunkedSyncSummary Nat)) :=
  keysRunner.closures.expand twoRangeSync

/-- The first range is written and the sync is cut before it learns of it, with the cursor
where it was. The next execution writes the range again, and returns a summary without deferred
work: the sink holds the even keys of both ranges. -/
theorem chunkedSyncRun_delivers_cut_after_write :
    ∃ history events summary, ∃ cut final : JobState Nat Nat,
      Executions (jobWorld twoPartitions.parts evenKeys)
          (keysRunner.closures.Expands CursoredSync) ⟨⊥, ∅⟩ history cut ∧
        cut.cursor = ⊥ ∧ cut.rows = evenKeys.rows ⟨0, 10⟩ ∧
        Reaches (jobWorld twoPartitions.parts evenKeys) twoRangeCycles cut events
          (.done (.ok summary)) final ∧
        summary.deferred = false ∧ final.rows = evenKeys.planned twoPartitions.parts := by
  let world := jobWorld twoPartitions.parts evenKeys
  let batch : Partition Nat → List Nat := fun partition =>
    (evenKeys.mapper.mapDetailed (evenKeys.held partition)).records
  let wrote : JobState Nat Nat → Partition Nat → JobState Nat Nat := fun state partition =>
    { state with rows := state.rows ∪ { row | row ∈ batch partition } }
  have listed : ∀ state, world.Answers state (.inl .listPartitions) (.ok twoPartitions.parts)
      state := fun _ => ⟨rfl, rfl, fun _ same => (Except.ok.inj same).symm⟩
  have read : ∀ state, world.Answers state (.inl .readCursor) (.ok state.cursor.reported)
      state := fun _ => ⟨rfl, rfl, fun _ same => (Except.ok.inj same).symm⟩
  have fetched : ∀ state partition, world.Answers state (.inr (partition, .fetch))
      (.ok (evenKeys.held partition)) state :=
    fun _ _ => ⟨rfl, fun _ same => (Except.ok.inj same).symm⟩
  have mapped : ∀ state partition, world.Answers state
      (.inr (partition, .map (evenKeys.held partition))) (.ok (batch partition)) state :=
    fun _ _ => ⟨rfl, rfl⟩
  have written : ∀ state partition, world.Answers state
      (.inr (partition, .write (batch partition))) (.ok ⟨5, 0, 0⟩) (wrote state partition) :=
    fun _ _ => ⟨rfl, Set.subset_union_left, subset_rfl, fun _ => Set.subset_union_right⟩
  have advanced : ∀ (state : JobState Nat Nat) (key : Nat), world.Answers state
      (.inl (.advance key)) (.ok ()) { state with cursor := key } := fun _ _ => ⟨rfl, .inl rfl⟩
  let start : JobState Nat Nat := ⟨⊥, ∅⟩
  let cutState := wrote start ⟨0, 10⟩
  let halfway : JobState Nat Nat := { wrote cutState ⟨0, 10⟩ with cursor := (10 : Nat) }
  have cut : Executions world (keysRunner.closures.Expands CursoredSync) start _ cutState :=
    .snoc .nil ⟨_, ⟨{ jobName := "job" }, rfl⟩, rfl⟩
      (.step (listed start) (.step (read start) (.step (fetched start ⟨0, 10⟩)
        (.step (mapped start ⟨0, 10⟩) (.step (written start ⟨0, 10⟩) .refl)))))
  have again : Reaches world twoRangeCycles cutState _ _ _ :=
    .step (listed cutState) (.step (read cutState) (.step (fetched cutState ⟨0, 10⟩)
      (.step (mapped cutState ⟨0, 10⟩) (.step (written cutState ⟨0, 10⟩)
        (.step (advanced (wrote cutState ⟨0, 10⟩) 10) (.step (fetched halfway ⟨10, 20⟩)
          (.step (mapped halfway ⟨10, 20⟩) (.step (written halfway ⟨10, 20⟩)
            (.step (advanced (wrote halfway ⟨10, 20⟩) 20) .refl)))))))))
  have delivers :=
    (chunkedSyncRun_delivers twoPartitions evenKeys keysRunner { jobName := "job" } cut).2 _ _ _
      again
  have isFirst : cutState.rows = evenKeys.rows ⟨0, 10⟩ :=
    (Set.empty_union _).trans (evenKeys.rows_eq ⟨0, 10⟩)
  exact ⟨_, _, _, _, _, cut, rfl, isFirst, again, rfl, delivers.2 _ rfl rfl⟩

end AltairRs.Wf.Datasync
