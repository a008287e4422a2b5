import Mathlib.Order.WithBot
import AltairRs.Wf.Datasync.Sync

/-!
# No loss across crashing executions

`durableWorld` is the environment of a sync that lists one plan and keeps its
cursor in a durable store. Every call may fail; an `advance` may also take
effect and still report failure. The invariant `Covered` ties the store to the
history: every partition that starts below the cursor was run successfully.
-/

namespace AltairRs.Wf.Datasync

open Effect

variable {K : Type}

/-- The durable store: the last stored key, with `⊥` before the first one. -/
abbrev CursorStore (K : Type) := WithBot K

/-- What `read` reports for a store. -/
def CursorStore.reported : CursorStore K → Option K
  | ⊥ => none
  | (key : K) => some key

/-- One plan and one durable store, with a fault possible at every call. -/
def durableWorld (parts : List (Partition K)) : World (syncSignature K) (CursorStore K) where
  Answers
    | store, .listPartitions, response, next =>
        next = store ∧ ∀ listed, response = .ok listed → listed = parts
    | store, .readCursor, response, next =>
        next = store ∧ ∀ current, response = .ok current → current = store.reported
    | store, .runPartition _, _, next => next = store
    | store, .advance completed, response, next =>
        next = completed ∨ (next = store ∧ response ≠ .ok ())
    | store, .sleeper _, _, next => next = store

/-- The partition was run successfully at some point of the history. -/
def RunOk (history : List (Event (syncSignature K))) (partition : Partition K) : Prop :=
  ∃ result, (⟨.runPartition partition, .ok result⟩ : Event (syncSignature K)) ∈ history

/-- A partition that was run stays so. -/
theorem RunOk.append {history : List (Event (syncSignature K))} {partition : Partition K}
    (ran : RunOk history partition) (events : List (Event (syncSignature K))) :
    RunOk (history ++ events) partition := by
  obtain ⟨result, member⟩ := ran
  exact ⟨result, List.mem_append_left events member⟩

/-- The partition that was run last was run. -/
theorem RunOk.of_last (history : List (Event (syncSignature K))) (partition : Partition K)
    (result : PartitionResult K) :
    RunOk (history ++ [⟨.runPartition partition, .ok result⟩]) partition :=
  ⟨result, List.mem_append_right history List.mem_cons_self⟩

variable [LinearOrder K]

/-- Every listed partition that starts below the stored cursor was run. -/
def Covered (parts : List (Partition K)) (history : List (Event (syncSignature K)))
    (store : CursorStore K) : Prop :=
  ∀ partition ∈ parts, (partition.start : CursorStore K) < store → RunOk history partition

/-- A sync keeps the store covered and never moves the cursor back. -/
def syncContract (parts : List (Partition K)) :
    Contract (syncSignature K) (CursorStore K) where
  Inv := Covered parts
  Grows before after := before ≤ after

/-- What a returned sync promises: a summary without deferred work means every
listed partition was run. -/
def Completed (parts : List (Partition K)) (returned : Result (ChunkedSyncSummary K))
    (history : List (Event (syncSignature K))) (_ : CursorStore K) : Prop :=
  ∀ summary, returned = .ok summary → summary.deferred = false →
    ∀ partition ∈ parts, RunOk history partition

/-- More history covers as much. -/
theorem Covered.append {parts : List (Partition K)} {history : List (Event (syncSignature K))}
    {store : CursorStore K} (covered : Covered parts history store)
    (events : List (Event (syncSignature K))) : Covered parts (history ++ events) store :=
  fun partition member below => (covered partition member below).append events

/-- The loop invariant: `todo` is what is left of this execution and `later` what
it defers. Every listed partition was run or is in one of them, they are still
in order, and the cursor has not passed them. -/
structure Pending (parts todo later : List (Partition K))
    (history : List (Event (syncSignature K))) (store : CursorStore K) : Prop where
  accounted : ∀ partition ∈ parts, RunOk history partition ∨ partition ∈ todo ++ later
  proper : ∀ partition ∈ todo ++ later, partition.Proper
  disjoint : (todo ++ later).Pairwise fun first second => first.endKey ≤ second.start
  ahead : ∀ partition ∈ todo ++ later, store ≤ partition.start

namespace Pending

variable {parts todo later : List (Partition K)} {history : List (Event (syncSignature K))}
  {store : CursorStore K} {partition : Partition K}

/-- More history keeps what is pending. -/
theorem append (pending : Pending parts todo later history store)
    (events : List (Event (syncSignature K))) :
    Pending parts todo later (history ++ events) store :=
  { pending with
    accounted := fun partition member =>
      (pending.accounted partition member).imp_left fun ran => ran.append events }

/-- Running the next partition leaves the rest pending behind its end key. -/
theorem finish (pending : Pending parts (partition :: todo) later history store)
    (ran : RunOk history partition) : Pending parts todo later history partition.endKey := by
  have behind := List.pairwise_cons.mp pending.disjoint
  refine ⟨fun other member => ?_, fun other member => ?_, behind.2, fun other member => ?_⟩
  · rcases pending.accounted other member with done | left
    · exact .inl done
    · rcases List.mem_cons.mp left with rfl | rest
      · exact .inl ran
      · exact .inr rest
  · exact pending.proper other (List.mem_cons_of_mem _ member)
  · exact WithBot.coe_le_coe.mpr (behind.1 other member)

/-- What is left stays pending when the cursor has not moved. -/
theorem stay (pending : Pending parts (partition :: todo) later history store)
    (ran : RunOk history partition) : Pending parts todo later history store :=
  { pending.finish ran with
    ahead := fun other member => pending.ahead other (List.mem_cons_of_mem _ member) }

/-- Nothing pending starts below the cursor, so the store is covered. -/
theorem covered (pending : Pending parts todo later history store) :
    Covered parts history store := by
  intro other member below
  rcases pending.accounted other member with done | left
  · exact done
  · exact absurd below (not_lt.mpr (pending.ahead other left))

/-- The end key of the next partition is past the cursor. -/
theorem grows (pending : Pending parts (partition :: todo) later history store) :
    store ≤ partition.endKey := by
  have ahead := pending.ahead partition List.mem_cons_self
  have proper := pending.proper partition List.mem_cons_self
  exact ahead.trans (WithBot.coe_le_coe.mpr proper.le)

/-- The partitions a covered cursor keeps are pending. -/
theorem of_covered (plan : PartitionPlan K) (covered : Covered plan.parts history store) :
    Pending plan.parts (cursorFilter store.reported plan.parts) [] history store := by
  have kept : ∀ partition, partition ∈ cursorFilter store.reported plan.parts ↔
      partition ∈ plan.parts ∧ store ≤ partition.start := by
    intro partition
    cases store using WithBot.recBotCoe with
    | bot => simp [CursorStore.reported, cursorFilter]
    | coe key => simp [CursorStore.reported, cursorFilter, WithBot.coe_le_coe]
  have sublist : (cursorFilter store.reported plan.parts).Sublist plan.parts := by
    cases store using WithBot.recBotCoe with
    | bot => exact List.Sublist.refl _
    | coe key => exact List.filter_sublist
  refine ⟨fun partition member => ?_, fun partition member => ?_, ?_, fun partition member => ?_⟩
  · rcases lt_or_ge (partition.start : CursorStore K) store with below | above
    · exact .inl (covered partition member below)
    · exact .inr (by simpa using (kept partition).mpr ⟨member, above⟩)
  · rw [List.append_nil] at member
    exact plan.proper partition ((kept partition).mp member).1
  · rw [List.append_nil]
    exact plan.disjoint.sublist sublist
  · rw [List.append_nil] at member
    exact ((kept partition).mp member).2

/-- Truncation moves the tail of what is to do into what is deferred. -/
theorem truncate (pending : Pending parts todo [] history store) (count : Nat) :
    Pending parts (todo.take count) (todo.drop count) history store := by
  have whole : todo.take count ++ todo.drop count = todo ++ [] := by simp
  constructor
  · rw [whole]; exact pending.accounted
  · rw [whole]; exact pending.proper
  · rw [whole]; exact pending.disjoint
  · rw [whole]; exact pending.ahead

end Pending

/-- The loop keeps the contract, and when it returns normally everything that
was not deferred has been run. -/
theorem partitionLoop_safe {parts todo later : List (Partition K)} {config : ChunkedSyncConfig}
    {n i : Nat} {summary : ChunkedSyncSummary K} {history : List (Event (syncSignature K))}
    {store : CursorStore K} (pending : Pending parts todo later history store) :
    Safe (durableWorld parts) (syncContract parts)
      (fun returned history store => ∀ final, returned = .ok final →
        Pending parts [] later history store)
      (partitionLoop config .some n i todo summary) history store := by
  induction todo generalizing i summary history store with
  | nil => exact ⟨pending.covered, fun _ _ => pending⟩
  | cons partition rest ih =>
      refine ⟨pending.covered, fun ran next same => ?_⟩
      cases same
      refine ⟨le_rfl, ?_⟩
      cases ran with
      | error e => exact ⟨(pending.append _).covered, fun _ impossible => nomatch impossible⟩
      | ok result =>
          have ranHere := RunOk.of_last history partition result
          have after := pending.append [⟨.runPartition partition, .ok result⟩]
          refine ⟨after.covered, fun advanced moved step => ?_⟩
          have left : Pending parts rest later
              (history ++ [⟨.runPartition partition, .ok result⟩]) moved ∧ store ≤ moved := by
            rcases step with rfl | ⟨rfl, _⟩
            · exact ⟨after.finish ranHere, after.grows⟩
            · exact ⟨after.stay ranHere, le_rfl⟩
          refine ⟨left.2, ?_⟩
          have here := left.1.append [⟨.advance partition.endKey, advanced⟩]
          cases advanced with
          | error e => exact ⟨here.covered, fun _ impossible => nomatch impossible⟩
          | ok _ =>
              change Safe _ _ _ (sleepBetween config n i >>= fun _ =>
                partitionLoop config .some n (i + 1) rest (summary.record result)) _ _
              apply Safe.bind
              unfold sleepBetween
              split
              · refine ⟨here.covered, fun slept awake same => ?_⟩
                cases same
                have woken := here.append [⟨.sleeper config.partitionSleep, slept⟩]
                exact ⟨le_rfl, woken.covered, ih woken⟩
              · exact ⟨here.covered, ih here⟩

/-- Processing keeps the contract, and a summary without deferred work means
everything was run. -/
theorem processPartitions_safe {parts todo : List (Partition K)} {config : ChunkedSyncConfig}
    {summary : ChunkedSyncSummary K} {history : List (Event (syncSignature K))}
    {store : CursorStore K} (pending : Pending parts todo [] history store) :
    Safe (durableWorld parts) (syncContract parts) (Completed parts)
      (processPartitions config .some todo summary) history store := by
  unfold processPartitions
  by_cases deferred : 0 < config.maxPartitionsPerExecution ∧
      config.maxPartitionsPerExecution < todo.length
  · simp only [deferred, and_self, decide_true, if_true]
    apply Safe.bind
    apply (partitionLoop_safe (pending.truncate _)).mono
    intro returned history store left
    cases returned with
    | error e => exact fun covered => ⟨covered, fun _ impossible => nomatch impossible⟩
    | ok final =>
        refine fun covered => ⟨covered, fun summary same impossible => ?_⟩
        cases same
        cases impossible
  · simp only [deferred, decide_false, if_neg Bool.false_ne_true]
    apply Safe.bind
    apply (partitionLoop_safe pending).mono
    intro returned history store left
    cases returned with
    | error e => exact fun covered => ⟨covered, fun _ impossible => nomatch impossible⟩
    | ok final =>
        refine fun covered => ⟨covered, fun summary _ _ partition member => ?_⟩
        have nothingLeft := (left final rfl).accounted partition member
        simpa using nothingLeft

/-- One execution keeps the contract from any covered store. -/
theorem chunkedSyncRun_safe (plan : PartitionPlan K) (config : ChunkedSyncConfig)
    {history : List (Event (syncSignature K))} {store : CursorStore K}
    (covered : Covered plan.parts history store) :
    Safe (durableWorld plan.parts) (syncContract plan.parts) (Completed plan.parts)
      (chunkedSyncRun config .some) history store := by
  rw [chunkedSyncRun_some]
  refine ⟨covered, fun listed next answer => ?_⟩
  obtain ⟨rfl, isPlan⟩ := answer
  refine ⟨le_rfl, ?_⟩
  have coveredListed := covered.append [⟨.listPartitions, listed⟩]
  cases listed with
  | error e => exact ⟨coveredListed, fun _ impossible => nomatch impossible⟩
  | ok parts =>
      cases isPlan parts rfl
      change Safe _ _ _ (if plan.parts.isEmpty then _ else _) _ _
      split
      · rename_i empty
        refine ⟨coveredListed, fun summary _ _ partition member => ?_⟩
        rw [List.isEmpty_iff.mp empty] at member
        cases member
      · refine ⟨coveredListed, fun current next answer => ?_⟩
        obtain ⟨rfl, isStore⟩ := answer
        refine ⟨le_rfl, ?_⟩
        have coveredRead := coveredListed.append [⟨.readCursor, current⟩]
        cases current with
        | error e => exact ⟨coveredRead, fun _ impossible => nomatch impossible⟩
        | ok current =>
            cases isStore current rfl
            have pending := Pending.of_covered plan coveredRead
            change Safe _ _ _ (if (cursorFilter _ plan.parts).isEmpty then _ else _) _ _
            split
            · rename_i allDone
              refine ⟨coveredRead, fun summary _ _ partition member => ?_⟩
              have nothing := List.isEmpty_iff.mp allDone
              have settled := pending.accounted partition member
              rw [nothing] at settled
              simpa using settled
            · exact processPartitions_safe pending

/-- The executions a scheduler may start: any configuration, with the cursor. -/
def CursoredSync (program : SyncProgram K (Result (ChunkedSyncSummary K))) : Prop :=
  ∃ config, program = chunkedSyncRun config .some

/-- Any number of executions, each cut anywhere, leaves the store covered. -/
theorem covered_of_executions (plan : PartitionPlan K)
    {history : List (Event (syncSignature K))} {store : CursorStore K}
    (executions : Executions (durableWorld plan.parts) CursoredSync ⊥ history store) :
    Covered plan.parts history store := by
  have start : (syncContract plan.parts).Inv [] ⊥ :=
    fun partition _ below => absurd below not_lt_bot
  have each : ∀ program history store, CursoredSync program →
      (syncContract plan.parts).Inv history store →
      Safe (durableWorld plan.parts) (syncContract plan.parts) (Completed plan.parts)
        program history store := by
    rintro _ history store ⟨config, rfl⟩ covered
    exact chunkedSyncRun_safe plan config covered
  exact executions.invariant start each

/-- A sync may be cut and repeated, with every call failing at will: the store
stays covered and never goes back, and an execution that returns a summary
without deferred work leaves no listed partition behind. -/
theorem chunkedSyncRun_crash_safe (plan : PartitionPlan K) (config : ChunkedSyncConfig)
    {history : List (Event (syncSignature K))} {store : CursorStore K}
    (executions : Executions (durableWorld plan.parts) CursoredSync ⊥ history store) :
    Covered plan.parts history store ∧
      ∀ events remainder next,
        Reaches (durableWorld plan.parts) (chunkedSyncRun config .some) store events
          remainder next →
        Covered plan.parts (history ++ events) next ∧
        (∀ suffix last later,
          Reaches (durableWorld plan.parts) remainder next suffix last later → next ≤ later) ∧
        ∀ summary, remainder = .done (.ok summary) → summary.deferred = false →
          ∀ partition ∈ plan.parts, RunOk (history ++ events) partition := by
  have covered := covered_of_executions plan executions
  refine ⟨covered, fun events remainder next reaches => ?_⟩
  have safe := (chunkedSyncRun_safe plan config covered).reaches reaches
  refine ⟨safe.inv, fun suffix last later further => ?_, fun summary same finished => ?_⟩
  · exact safe.grows_of_reaches (fun _ => le_refl _) (fun first second => le_trans first second)
      further
  · subst same
    exact safe.2 summary rfl finished

/-- A sync of two ranges with a cursor. -/
def twoRangeSync : SyncProgram Nat (Result (ChunkedSyncSummary Nat)) :=
  chunkedSyncRun { jobName := "job" } .some

/-- An execution whose first `advance` takes effect but reports failure leaves the cursor at
10; the one after it, which runs the second range only, returns a summary without deferred
work and the cursor at 20: both ranges were run. -/
theorem chunkedSyncRun_crash_safe_lost_acknowledgement :
    ∃ history events summary,
      Executions (durableWorld twoPartitions.parts) CursoredSync ⊥ history (WithBot.some 10) ∧
        Reaches (durableWorld twoPartitions.parts) twoRangeSync (WithBot.some 10) events
          (.done (.ok summary)) (WithBot.some 20) ∧
        summary.deferred = false ∧
        ¬ RunOk events ⟨0, 10⟩ ∧
        ∀ partition ∈ twoPartitions.parts, RunOk (history ++ events) partition := by
  let world := durableWorld twoPartitions.parts
  have listed : ∀ store, world.Answers store .listPartitions (.ok twoPartitions.parts) store :=
    fun _ => ⟨rfl, fun _ same => (Except.ok.inj same).symm⟩
  have read : ∀ store, world.Answers store .readCursor (.ok store.reported) store :=
    fun _ => ⟨rfl, fun _ same => (Except.ok.inj same).symm⟩
  have ran : ∀ store (partition : Partition Nat), world.Answers store (.runPartition partition)
      (.ok ⟨partition.start, partition.endKey, 1, 1, 0, 0⟩) store := fun _ _ => rfl
  have lost : world.Answers ⊥ (.advance 10) (.error (.activity "advance" "timeout"))
      (WithBot.some 10) := .inl rfl
  have advanced : world.Answers (WithBot.some 10) (.advance 20) (.ok ()) (WithBot.some 20) :=
    .inl rfl
  have first : Executions world CursoredSync ⊥ _ _ :=
    .snoc .nil ⟨{ jobName := "job" }, rfl⟩
      (.step (listed ⊥) (.step (read ⊥) (.step (ran ⊥ _) (.step lost .refl))))
  have second : Reaches world twoRangeSync (WithBot.some 10) _ _ _ :=
    .step (listed _) (.step (read _) (.step (ran _ _) (.step advanced .refl)))
  have safe := (chunkedSyncRun_crash_safe twoPartitions { jobName := "job" } first).2 _ _ _ second
  refine ⟨_, _, _, first, second, rfl, ?_, safe.2.2 _ rfl rfl⟩
  rintro ⟨result, member⟩
  simp at member

end AltairRs.Wf.Datasync
