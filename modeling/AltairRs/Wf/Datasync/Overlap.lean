import Mathlib.Order.MinMax
import AltairRs.Effect.Pool
import AltairRs.Wf.Datasync.Delivery

/-!
# Executions that overlap

A sync may be started while earlier executions of it still run, over a source that
grows in the meantime. They share the durable cursor and the sink, so between any two
calls of one of them the others may write rows and move the cursor, even backwards, and
each has listed its own front of the plan. No row is lost: an execution advances the
cursor to the end of what it has accounted for itself, wherever the cursor is by then,
and what it has not listed starts behind all that it has.
-/

namespace AltairRs.Wf.Datasync

open Effect

variable {K T U ε Name : Type}

section Shared

variable [LinearOrder K] [ToString ε]

/-- What the durable store does with a key: it replaces the old one, or the greater
of the two stays. -/
inductive Upsert where
  | replaces
  | keepsGreatest
deriving DecidableEq, Repr

def Upsert.put (upsert : Upsert) (store : CursorStore K) (completed : K) : CursorStore K :=
  match upsert with
  | .replaces => completed
  | .keepsGreatest => max store completed

/-- The world of executions that share a cursor and a sink, and run their partitions
call by call. The plan is all that the source will ever hold; a listing is what there
was of it by then. -/
def sharedWorld (upsert : Upsert) (parts : List (Partition K)) (contents : Contents K T U ε) :
    World (jobSignature K T U) (JobState K U) where
  Answers
    | before, .inl .listPartitions, response, after =>
        after = before ∧ ∀ listed, response = .ok listed → listed <+: parts
    | before, .inl (.advance completed), response, after =>
        after.rows = before.rows ∧ (after.cursor = upsert.put before.cursor completed ∨
          (after.cursor = before.cursor ∧ response ≠ .ok ()))
    | before, operation, response, after =>
        (jobWorld parts contents).Answers before operation response after

/-- Executions that run one by one, over a source that holds its plan from the start, are
answered as here by a store that replaces its key. -/
theorem jobWorld_shared {parts : List (Partition K)} {contents : Contents K T U ε}
    {before after : JobState K U} {operation : (jobSignature K T U).Op}
    {response : (jobSignature K T U).Response operation}
    (answer : (jobWorld parts contents).Answers before operation response after) :
    (sharedWorld .replaces parts contents).Answers before operation response after := by
  rcases operation with operation | ⟨partition, operation⟩
  · cases operation with
    | listPartitions =>
        obtain ⟨sameRows, sameCursor, isPlan⟩ := answer
        refine ⟨?_, fun listed isOk => isPlan listed isOk ▸ List.prefix_rfl⟩
        cases before
        cases after
        cases sameRows
        cases sameCursor
        rfl
    | _ => exact answer
  · cases operation <;> exact answer

end Shared

variable {parts listed todo later : List (Partition K)}
  {contents : Contents K T U ε} {partition : Partition K} {name : Name}
  {ran more : List (Event (syncSignature K))} {rows grown : Set U}
  {history further : SharedHistory (jobSignature K T U) Name} {event : Event (jobSignature K T U)}

/-- The rows of all partitions that were run. -/
def Kept (contents : Contents K T U ε) (ran : List (Event (syncSignature K))) (rows : Set U) :
    Prop :=
  ∀ partition, RunOk ran partition → contents.rows partition ⊆ rows

/-- What is kept stays among more rows. -/
theorem Kept.mono (kept : Kept contents ran rows) (grows : rows ⊆ grown) :
    Kept contents ran grown :=
  fun partition isRun => (kept partition isRun).trans grows

/-- Both parts are kept. -/
theorem Kept.append (kept : Kept contents ran rows) (keptMore : Kept contents more rows) :
    Kept contents (ran ++ more) rows := by
  rintro partition ⟨result, member⟩
  rcases List.mem_append.mp member with earlier | later
  · exact kept partition ⟨result, earlier⟩
  · exact keptMore partition ⟨result, later⟩

/-- The program has listed these partitions. -/
def Lists (history : SharedHistory (jobSignature K T U) Name) (name : Name)
    (listed : List (Partition K)) : Prop :=
  (name, ⟨.inl .listPartitions, .ok listed⟩) ∈ history

/-- What was listed stays listed. -/
theorem Lists.append (lists : Lists history name listed)
    (more : SharedHistory (jobSignature K T U) Name) : Lists (history ++ more) name listed :=
  List.mem_append_left more lists

/-- Others list for themselves. -/
theorem lists_others (acted : Others name history further) :
    Lists further name listed ↔ Lists history name listed := by
  obtain ⟨others, rfl, different⟩ := acted
  refine ⟨fun lists => ?_, fun lists => lists.append others⟩
  rcases List.mem_append.mp lists with earlier | other
  · exact earlier
  · exact absurd rfl (different _ other)

/-- A call that is not a listing lists nothing. -/
theorem lists_append (event : Event (jobSignature K T U))
    (notListing : event.operation ≠ .inl .listPartitions) :
    Lists (history ++ [(name, event)]) name listed ↔ Lists history name listed := by
  refine ⟨fun lists => ?_, fun lists => lists.append _⟩
  rcases List.mem_append.mp lists with earlier | last
  · exact earlier
  · cases List.mem_singleton.mp last
    exact absurd rfl notListing

/-- The rows of all partitions that anyone has listed. -/
def Contents.known (contents : Contents K T U ε)
    (history : SharedHistory (jobSignature K T U) Name) : Set U :=
  { row | ∃ name listed, Lists history name listed ∧ row ∈ contents.planned listed }

/-- What is known stays known. -/
theorem Contents.known_append (contents : Contents K T U ε)
    (history more : SharedHistory (jobSignature K T U) Name) :
    contents.known history ⊆ contents.known (history ++ more) := by
  rintro row ⟨name, listed, lists, isRow⟩
  exact ⟨name, listed, lists.append more, isRow⟩

section Order

variable [LinearOrder K] {store : CursorStore K} {plan : PartitionPlan K}

/-- An older history covers as much. -/
theorem Covered.append_left (covered : Covered parts ran store)
    (before : List (Event (syncSignature K))) : Covered parts (before ++ ran) store := by
  intro partition member below
  obtain ⟨result, isRun⟩ := covered partition member below
  exact ⟨result, List.mem_append_right before isRun⟩

/-- Runs that cover both keys cover the one that is stored. -/
theorem Covered.put {completed : K} (covered : Covered parts ran store)
    (behind : Covered parts ran (completed : CursorStore K)) (upsert : Upsert) :
    Covered parts ran (upsert.put store completed) := by
  cases upsert with
  | replaces => exact behind
  | keepsGreatest =>
      intro partition member below
      rcases lt_max_iff.mp below with before | before
      · exact covered partition member before
      · exact behind partition member before

/-- What the source held by then is a plan too. -/
def PartitionPlan.front (plan : PartitionPlan K) (isFront : listed <+: plan.parts) :
    PartitionPlan K where
  parts := listed
  proper partition member := plan.proper partition (isFront.subset member)
  ordered := plan.ordered.prefix isFront

/-- What is not listed yet starts behind the end of what is. -/
theorem Covered.of_front (isFront : listed <+: plan.parts) (member : partition ∈ listed)
    (covered : Covered listed ran partition.endKey) :
    Covered plan.parts ran partition.endKey := by
  obtain ⟨rest, isPlan⟩ := isFront
  intro other isPart below
  rw [← isPlan] at isPart
  rcases List.mem_append.mp isPart with isListed | isLater
  · exact covered other isListed below
  · have ordered := plan.disjoint
    rw [← isPlan] at ordered
    have behind := (List.pairwise_append.mp ordered).2.2 partition member other isLater
    exact absurd (WithBot.coe_lt_coe.mp below) (not_lt.mpr behind)

/-- The cursor is behind runs whose rows the sink still has, and it has no others than
those that were listed. -/
structure Delivered (plan : PartitionPlan K) (contents : Contents K T U ε)
    (history : SharedHistory (jobSignature K T U) Name) (state : JobState K U) : Prop where
  covered : ∃ ran, Covered plan.parts ran state.cursor ∧ Kept contents ran state.rows
  fronts : ∀ name listed, Lists history name listed → listed <+: plan.parts
  known : state.rows ⊆ contents.known history

/-- A call that is not a listing. -/
theorem Delivered.call {before after : JobState K U}
    (delivered : Delivered plan contents history before)
    (notListing : event.operation ≠ .inl .listPartitions)
    (covered : ∃ ran, Covered plan.parts ran after.cursor ∧ Kept contents ran after.rows)
    (known : after.rows ⊆ contents.known history) :
    Delivered plan contents (history ++ [(name, event)]) after := by
  refine ⟨covered, fun other listed lists => ?_, known.trans (contents.known_append ..)⟩
  rcases List.mem_append.mp lists with earlier | last
  · exact delivered.fronts other listed earlier
  · cases List.mem_singleton.mp last
    exact absurd rfl notListing

/-- A call that leaves the cursor, and writes rows that were listed. -/
theorem Delivered.grow {before after : JobState K U}
    (delivered : Delivered plan contents history before)
    (notListing : event.operation ≠ .inl .listPartitions)
    (sameCursor : after.cursor = before.cursor) (grows : before.rows ⊆ after.rows)
    (known : after.rows ⊆ contents.known history) :
    Delivered plan contents (history ++ [(name, event)]) after := by
  obtain ⟨ran, covered, kept⟩ := delivered.covered
  refine delivered.call notListing ⟨ran, ?_, kept.mono grows⟩ known
  rw [sameCursor]
  exact covered

/-- A call that writes nothing. -/
theorem Delivered.same {before after : JobState K U}
    (delivered : Delivered plan contents history before)
    (notListing : event.operation ≠ .inl .listPartitions)
    (sameRows : after.rows = before.rows) (sameCursor : after.cursor = before.cursor) :
    Delivered plan contents (history ++ [(name, event)]) after :=
  delivered.grow notListing sameCursor sameRows.ge (sameRows ▸ delivered.known)

/-- A listing. -/
theorem Delivered.list {state : JobState K U} (delivered : Delivered plan contents history state)
    {response : Result (List (Partition K))}
    (isFront : ∀ listed, response = .ok listed → listed <+: plan.parts) :
    Delivered plan contents (history ++ [(name, ⟨.inl .listPartitions, response⟩)]) state := by
  refine ⟨delivered.covered, fun other listed lists => ?_,
    delivered.known.trans (contents.known_append ..)⟩
  rcases List.mem_append.mp lists with earlier | last
  · exact delivered.fronts other listed earlier
  · cases List.mem_singleton.mp last
    exact isFront listed rfl

/-- Rows that were listed are rows of the plan. -/
theorem Delivered.planned {state : JobState K U}
    (delivered : Delivered plan contents history state) :
    state.rows ⊆ contents.planned plan.parts := by
  intro row isRow
  obtain ⟨name, listed, lists, partition, member, isHeld⟩ := delivered.known isRow
  exact ⟨partition, (delivered.fronts name listed lists).subset member, isHeld⟩

/-- Rows stay, and the cursor is behind what was delivered. -/
def delivery (plan : PartitionPlan K) (contents : Contents K T U ε) :
    Protocol (jobSignature K T U) (JobState K U) Name where
  Inv := Delivered plan contents
  Grows before after := before.rows ⊆ after.rows
  growsRefl _ := subset_rfl
  growsTrans := Set.Subset.trans

/-- What an execution has listed, and what it has to do of it by the runs it knows of; the
bound is where the cursor was when it knew it last. -/
structure Knows (plan : PartitionPlan K) (contents : Contents K T U ε) (name : Name)
    (listed todo later : List (Partition K)) (history : SharedHistory (jobSignature K T U) Name)
    (rows : Set U) : Prop where
  isFront : listed <+: plan.parts
  lists : ∀ other, Lists history name other ↔ other = listed
  isTodo : ∀ partition ∈ todo, partition ∈ listed
  pending : ∃ ran bound, Pending listed todo later ran bound ∧ Kept contents ran rows

namespace Knows

/-- What is known stays so while others act. -/
theorem others (knows : Knows plan contents name listed todo later history rows)
    (acted : Others name history further) (grows : rows ⊆ grown) :
    Knows plan contents name listed todo later further grown := by
  obtain ⟨ran, bound, pending, kept⟩ := knows.pending
  exact { knows with
    lists := fun other => (lists_others acted).trans (knows.lists other)
    pending := ⟨ran, bound, pending, kept.mono grows⟩ }

/-- A call of its own that is not a listing. -/
theorem call (knows : Knows plan contents name listed todo later history rows)
    (event : Event (jobSignature K T U)) (notListing : event.operation ≠ .inl .listPartitions)
    (grows : rows ⊆ grown) :
    Knows plan contents name listed todo later (history ++ [(name, event)]) grown := by
  obtain ⟨ran, bound, pending, kept⟩ := knows.pending
  exact { knows with
    lists := fun other => (lists_append event notListing).trans (knows.lists other)
    pending := ⟨ran, bound, pending, kept.mono grows⟩ }

/-- With the rows of the next partition in the sink, its end key is behind runs the
execution knows of. -/
theorem finish (knows : Knows plan contents name listed (partition :: todo) later history rows)
    (written : contents.rows partition ⊆ rows) :
    Knows plan contents name listed todo later history rows ∧
      ∃ ran, Covered plan.parts ran partition.endKey ∧ Kept contents ran rows := by
  obtain ⟨member, isTodo⟩ := List.forall_mem_cons.mp knows.isTodo
  obtain ⟨ran, bound, pending, kept⟩ := knows.pending
  let result : PartitionResult K := ⟨partition.start, partition.endKey, 0, 0, 0, 0⟩
  have left := (pending.append [⟨.runPartition partition, .ok result⟩]).finish
    (RunOk.of_last ran partition result)
  have keptNow : Kept contents (ran ++ [⟨.runPartition partition, .ok result⟩]) rows := by
    refine kept.append fun other isRun => ?_
    obtain ⟨_, member⟩ := isRun
    cases List.mem_singleton.mp member
    exact written
  exact ⟨{ knows with isTodo, pending := ⟨_, _, left, keptNow⟩ }, _,
    left.covered.of_front knows.isFront member, keptNow⟩

/-- Nothing left to do means that all that was listed has been done. -/
theorem all_listed (knows : Knows plan contents name listed [] [] history rows) :
    contents.planned listed ⊆ rows := by
  obtain ⟨ran, bound, pending, kept⟩ := knows.pending
  rintro row ⟨partition, member, isRow⟩
  rcases pending.accounted partition member with isRun | impossible
  · exact kept partition isRun isRow
  · cases impossible

end Knows

/-- After a summary without deferred work the rows of all partitions that the execution
listed are in the sink. -/
def CompletedListed (contents : Contents K T U ε) (name : Name)
    (returned : Result (ChunkedSyncSummary K)) (history : SharedHistory (jobSignature K T U) Name)
    (state : JobState K U) : Prop :=
  ∀ summary, returned = .ok summary → summary.deferred = false →
    ∃ listed, (∀ other, Lists history name other ↔ other = listed) ∧
      contents.planned listed ⊆ state.rows

/-- What is completed stays so. -/
theorem completedListed_isStable (name : Name) :
    (delivery plan contents).IsStable name (CompletedListed contents name) := by
  intro returned history since later here acted grown completed summary isOk finished
  obtain ⟨listed, lists, isKept⟩ := completed summary isOk finished
  exact ⟨listed, fun other => (lists_others acted).trans (lists other), isKept.trans grown⟩

/-- With nothing left to do, all that was listed is completed. -/
theorem Knows.completed {summary : ChunkedSyncSummary K} {state : JobState K U}
    (knows : Knows plan contents name listed [] [] history state.rows) :
    CompletedListed contents name (.ok summary) history state :=
  fun _ _ _ => ⟨listed, knows.lists, knows.all_listed⟩

end Order

variable [LinearOrder K] [ToString ε] {upsert : Upsert} {plan : PartitionPlan K}
  {since : JobState K U}

/-- The cycle of the next partition, between whatever calls of others. -/
theorem Runner.runPartition_steady (runner : Runner)
    (knows : Knows plan contents name listed (partition :: todo) later history since.rows) :
    Steady (sharedWorld upsert plan.parts contents) (delivery plan contents) name
      (fun value history state => (∃ result, value = .ok result) →
        Knows plan contents name listed (partition :: todo) later history state.rows ∧
          contents.rows partition ⊆ state.rows)
      (runner.runPartition partition) history since := by
  have member : partition ∈ listed := knows.isTodo partition List.mem_cons_self
  intro fetching here fetched next acted grown delivered answer
  obtain ⟨rfl, isHeld⟩ := answer
  have knowsFetched := (knows.others acted grown).call
    ⟨.inr (partition, .fetch), fetched⟩ nofun subset_rfl
  refine ⟨subset_rfl, delivered.same nofun rfl rfl, ?_⟩
  cases fetched with
  | error e => exact nofun
  | ok records =>
      cases isHeld records rfl
      cases isRecords : contents.held partition with
      | nil =>
          refine fun _ => ⟨isRecords ▸ knowsFetched, ?_⟩
          rintro row ⟨record, isRecord, -⟩
          rw [isRecords] at isRecord
          cases isRecord
      | cons record rest =>
          rw [isRecords] at knowsFetched
          intro mapping here mapped next acted grown delivered answer
          obtain ⟨rfl, rfl⟩ := answer
          refine ⟨subset_rfl, delivered.same nofun rfl rfl, ?_⟩
          have knowsMapped := (knowsFetched.others acted grown).call
            ⟨.inr (partition, .map (record :: rest)), contents.mapper.map (record :: rest)⟩ nofun
            subset_rfl
          intro writing here written after acted grown delivered answer
          have keeps : Keeps (contents.rows partition) (∃ result, written = .ok result) here
              after := by
            rw [← contents.rows_eq, isRecords]
            exact answer
          have knowsHere := knowsMapped.others acted grown
          have known : after.rows ⊆ contents.known writing := by
            refine keeps.fresh.trans (Set.union_subset delivered.known fun row isRow => ?_)
            exact ⟨name, listed, (knowsHere.lists listed).mpr rfl, partition, member, isRow⟩
          refine ⟨keeps.kept, delivered.grow nofun keeps.cursor_eq keeps.kept known, ?_⟩
          cases written with
          | error e => exact nofun
          | ok written =>
              exact fun _ => ⟨knowsHere.call _ nofun keeps.kept, keeps.all ⟨written, rfl⟩⟩

/-- Nothing is forgotten in a sleep. -/
theorem Runner.sleepBetween_steady (runner : Runner) {config : ChunkedSyncConfig} {n i : Nat}
    (knows : Knows plan contents name listed todo later history since.rows) :
    Steady (sharedWorld upsert plan.parts contents) (delivery plan contents) name
      (fun _ history state => Knows plan contents name listed todo later history state.rows)
      (runner.closures.expand (sleepBetween config n i)) history since := by
  unfold sleepBetween
  split
  · intro _ here response next acted grown delivered answer
    obtain ⟨sameRows, sameCursor⟩ := answer
    exact ⟨sameRows.ge, delivered.same nofun sameRows sameCursor,
      (knows.others acted grown).call _ nofun sameRows.ge⟩
  · exact knows

/-- The loop keeps what was delivered, wherever the cursor is moved meanwhile. -/
theorem partitionLoop_steady (runner : Runner) {config : ChunkedSyncConfig} {n i : Nat}
    {summary : ChunkedSyncSummary K}
    (knows : Knows plan contents name listed todo later history since.rows) :
    Steady (sharedWorld upsert plan.parts contents) (delivery plan contents) name
      (fun returned history state => ∀ final, returned = .ok final →
        Knows plan contents name listed [] later history state.rows)
      (runner.closures.expand (partitionLoop config .some n i todo summary)) history since := by
  induction todo generalizing i summary history since with
  | nil => exact fun _ _ => knows
  | cons partition rest ih =>
      apply (runner.runPartition_steady knows).bind
      intro value history ended written
      cases value with
      | error e => exact fun _ impossible => nomatch impossible
      | ok result =>
          obtain ⟨knowsEnded, isWritten⟩ := written ⟨result, rfl⟩
          obtain ⟨left, ran, behind, keptRan⟩ := knowsEnded.finish isWritten
          intro advancing here advanced next acted grown delivered answer
          obtain ⟨sameRows, moved⟩ := answer
          -- The end key is behind the runs of this execution, so it may be stored over any other.
          have deliveredNext : Delivered plan contents
              (advancing ++ [(name, ⟨.inl (.advance partition.endKey), advanced⟩)]) next := by
            rcases moved with isPut | ⟨sameCursor, -⟩
            · obtain ⟨others, covered, keptOthers⟩ := delivered.covered
              refine delivered.call nofun ⟨others ++ ran, ?_, ?_⟩ (sameRows ▸ delivered.known)
              · rw [isPut]
                exact (covered.append ran).put (behind.append_left others) upsert
              · rw [sameRows]
                exact keptOthers.append (keptRan.mono grown)
            · exact delivered.same nofun sameRows sameCursor
          have leftNow := (left.others acted grown).call
            ⟨.inl (.advance partition.endKey), advanced⟩ nofun sameRows.ge
          refine ⟨sameRows.ge, deliveredNext, ?_⟩
          cases advanced with
          | error e => exact fun _ impossible => nomatch impossible
          | ok _ =>
              change Steady _ _ _ _ (runner.closures.expand (sleepBetween config n i >>= fun _ =>
                partitionLoop config .some n (i + 1) rest (summary.record result))) _ _
              rw [Expansion.expand_bind]
              apply (runner.sleepBetween_steady leftNow).bind
              exact fun _ _ _ awake => ih awake

/-- The loop keeps what is known, against all others. -/
theorem processPartitions_steady (runner : Runner) {config : ChunkedSyncConfig}
    {summary : ChunkedSyncSummary K}
    (knows : Knows plan contents name listed todo [] history since.rows) :
    Steady (sharedWorld upsert plan.parts contents) (delivery plan contents) name
      (CompletedListed contents name)
      (runner.closures.expand (processPartitions config .some todo summary)) history since := by
  unfold processPartitions
  by_cases deferred : 0 < config.maxPartitionsPerExecution ∧
      config.maxPartitionsPerExecution < todo.length
  · simp only [deferred, and_self, decide_true, if_true]
    obtain ⟨ran, bound, pending, kept⟩ := knows.pending
    have front : Knows plan contents name listed (todo.take config.maxPartitionsPerExecution)
        (todo.drop config.maxPartitionsPerExecution) history since.rows :=
      { knows with
        isTodo := fun partition member => knows.isTodo partition (List.mem_of_mem_take member)
        pending := ⟨ran, bound, pending.truncate _, kept⟩ }
    rw [Expansion.expand_bind]
    apply (partitionLoop_steady runner front).bind
    intro returned history state left
    cases returned with
    | error e => exact fun _ impossible => nomatch impossible
    | ok final =>
        intro summary same impossible
        cases same
        cases impossible
  · simp only [deferred, decide_false, if_neg Bool.false_ne_true]
    rw [Expansion.expand_bind]
    apply (partitionLoop_steady runner knows).bind
    intro returned history state left
    cases returned with
    | error e => exact fun _ impossible => nomatch impossible
    | ok final => exact (left final rfl).completed

/-- One execution that has listed nothing yet, whatever the others have done when it
starts. -/
theorem chunkedSyncRun_steady (runner : Runner) (config : ChunkedSyncConfig)
    (isNew : ∀ listed, ¬ Lists history name listed) :
    Steady (sharedWorld upsert plan.parts contents) (delivery plan contents) name
      (CompletedListed contents name)
      (runner.closures.expand (chunkedSyncRun config .some)) history since := by
  rw [chunkedSyncRun_some]
  intro listing here response next acted _ delivered answer
  obtain ⟨rfl, isFront⟩ := answer
  refine ⟨subset_rfl, delivered.list isFront, ?_⟩
  cases response with
  | error e => exact fun _ impossible => nomatch impossible
  | ok listed =>
      have front := isFront listed rfl
      have lists : ∀ other, Lists (listing ++ [(name, ⟨.inl .listPartitions, .ok listed⟩)]) name
          other ↔ other = listed := by
        refine fun other => ⟨fun isListed => ?_, ?_⟩
        · rcases List.mem_append.mp isListed with earlier | last
          · exact absurd ((lists_others acted).mp earlier) (isNew other)
          · cases List.mem_singleton.mp last
            rfl
        · rintro rfl
          exact List.mem_append_right _ List.mem_cons_self
      change Steady _ _ _ _ (runner.closures.expand (if listed.isEmpty then _ else _)) _ _
      split
      · rename_i empty
        refine fun summary _ _ => ⟨listed, lists, ?_⟩
        rintro row ⟨partition, member, -⟩
        rw [List.isEmpty_iff.mp empty] at member
        cases member
      · intro reading here current next acted _ delivered answer
        obtain ⟨sameRows, sameCursor, isStore⟩ := answer
        refine ⟨sameRows.ge, delivered.same nofun sameRows sameCursor, ?_⟩
        cases current with
        | error e => exact fun _ impossible => nomatch impossible
        | ok current =>
            obtain rfl : current = next.cursor.reported := sameCursor ▸ isStore current rfl
            obtain ⟨ran, covered, kept⟩ := delivered.covered
            rw [← sameCursor] at covered
            have pending : Pending listed (cursorFilter next.cursor.reported listed) [] ran
                next.cursor :=
              .of_covered (plan.front front) fun partition member below =>
                covered partition (front.subset member) below
            have knows : Knows plan contents name listed
                (cursorFilter next.cursor.reported listed) []
                (reading ++ [(name, ⟨.inl .readCursor, .ok next.cursor.reported⟩)]) next.rows :=
              { isFront := front
                lists := fun other =>
                  (lists_append ⟨.inl .readCursor, _⟩ nofun).trans
                    ((lists_others acted).trans (lists other))
                isTodo := fun _ => mem_of_mem_cursorFilter
                pending := ⟨ran, _, pending, sameRows ▸ kept⟩ }
            change Steady _ _ _ _
              (runner.closures.expand (if (cursorFilter _ listed).isEmpty then _ else _)) _ _
            split
            · rename_i allDone
              rw [List.isEmpty_iff.mp allDone] at knows
              exact knows.completed
            · exact processPartitions_steady runner knows

/-- With a store that keeps the greatest key, no call moves the cursor back. -/
theorem sharedWorld_forward {before after : JobState K U} {operation : (jobSignature K T U).Op}
    {response : (jobSignature K T U).Response operation}
    (answer : (sharedWorld .keepsGreatest parts contents).Answers before operation response after) :
    before.cursor ≤ after.cursor := by
  rcases operation with operation | ⟨partition, operation⟩
  · cases operation with
    | listPartitions => exact answer.1 ▸ le_rfl
    | readCursor => exact answer.2.1.ge
    | runPartition partition => exact answer.elim
    | advance completed =>
        rcases answer.2 with isPut | ⟨same, -⟩
        · rw [isPut]
          exact le_max_left ..
        · exact same.ge
    | sleeper duration => exact answer.2.ge
  · cases operation with
    | fetch => exact answer.1 ▸ le_rfl
    | map records => exact answer.1 ▸ le_rfl
    | write records => exact answer.cursor_eq.ge

/-- The rows behind the cursor are in the sink, with rows of listed partitions only, and
with all of those that an execution listed once it has returned a summary without deferred
work. -/
structure NothingLost (plan : PartitionPlan K) (contents : Contents K T U ε)
    (pool : Pool (jobSignature K T U) (JobState K U) Name (Result (ChunkedSyncSummary K))) :
    Prop where
  behind : ∀ partition ∈ plan.parts, (partition.start : CursorStore K) < pool.state.cursor →
    contents.rows partition ⊆ pool.state.rows
  known : pool.state.rows ⊆ contents.known pool.history
  finished : ∀ name summary, pool.program name = .done (.ok summary) → summary.deferred = false →
    ∃ listed, (∀ other, Lists pool.history name other ↔ other = listed) ∧
      listed <+: plan.parts ∧ contents.planned listed ⊆ pool.state.rows
  complete : ∀ name summary, pool.program name = .done (.ok summary) → summary.deferred = false →
    Lists pool.history name plan.parts → pool.state.rows = contents.planned plan.parts

/-- Any number of executions of a sync may overlap, each started, delayed, failed and cut
anywhere, between any two calls of any cycle, while the source grows at its end: nothing is
lost, wherever they move the cursor. It only moves forward if the store keeps the greatest
key. -/
theorem chunkedSyncRun_overlapping [DecidableEq Name] (plan : PartitionPlan K)
    (contents : Contents K T U ε) (upsert : Upsert)
    {program : Name → Program (jobSignature K T U) (Result (ChunkedSyncSummary K))}
    (executions : ∀ name, ∃ runner : Runner, runner.closures.Expands CursoredSync (program name))
    {pool : Pool (jobSignature K T U) (JobState K U) Name (Result (ChunkedSyncSummary K))}
    (steps : Pool.Steps (sharedWorld upsert plan.parts contents) (.start ⟨⊥, ∅⟩ program) pool) :
    NothingLost plan contents pool ∧
      (upsert = .keepsGreatest → ∀ later,
        Pool.Steps (sharedWorld upsert plan.parts contents) pool later →
          pool.state.cursor ≤ later.state.cursor) := by
  have start : Pool.IsSteady (sharedWorld upsert plan.parts contents)
      (delivery plan contents) (CompletedListed contents) (.start ⟨⊥, ∅⟩ program) := by
    refine ⟨⟨⟨[], fun _ _ below => absurd below not_lt_bot, ?_⟩, nofun, Set.empty_subset _⟩,
      fun name => ?_⟩
    · rintro partition ⟨_, impossible⟩
      cases impossible
    · obtain ⟨runner, _, ⟨config, rfl⟩, isProgram⟩ := executions name
      change Steady _ _ _ _ (program name) _ _
      rw [isProgram]
      exact chunkedSyncRun_steady runner config nofun
  have isSteady := start.steps completedListed_isStable steps
  have delivered : Delivered plan contents pool.history pool.state := isSteady.inv
  obtain ⟨ran, covered, kept⟩ := delivered.covered
  refine ⟨⟨fun partition member below => kept partition (covered partition member below),
    delivered.known, fun name summary returned finished => ?_,
    fun name summary returned finished listsPlan => ?_⟩, ?_⟩
  · obtain ⟨listed, lists, isKept⟩ := isSteady.returned returned summary rfl finished
    exact ⟨listed, lists, delivered.fronts name listed ((lists listed).mpr rfl), isKept⟩
  · obtain ⟨listed, lists, isKept⟩ := isSteady.returned returned summary rfl finished
    cases (lists plan.parts).mp listsPlan
    exact delivered.planned.antisymm isKept
  · rintro rfl later further
    induction further with
    | refl => exact le_rfl
    | tail _ step ih =>
        cases step with
        | answer name pending effect => exact ih.trans (sharedWorld_forward effect)

/-- The source has the first range when one execution lists it, and both when another one does,
before either has moved the cursor. The second runs both and returns with the cursor at 20; the
first then runs its range again and moves the cursor back. -/
theorem movedBack_run :
    ∃ before after : Pool (jobSignature Nat Nat Nat) (JobState Nat Nat) Bool
        (Result (ChunkedSyncSummary Nat)),
      Pool.Steps (sharedWorld .replaces twoPartitions.parts evenKeys)
          (.start ⟨⊥, ∅⟩ fun _ => twoRangeCycles) before ∧
        before.state.cursor = WithBot.some 20 ∧
        Pool.Steps (sharedWorld .replaces twoPartitions.parts evenKeys) before after ∧
        after.state.cursor = WithBot.some 10 ∧
        (∃ summary, before.program true = .done (.ok summary) ∧
          after.program true = .done (.ok summary) ∧ summary.deferred = false) ∧
        Lists after.history true twoPartitions.parts := by
  let world := sharedWorld .replaces twoPartitions.parts evenKeys
  let batch : Partition Nat → List Nat := fun partition =>
    (evenKeys.mapper.mapDetailed (evenKeys.held partition)).records
  let wrote : JobState Nat Nat → Partition Nat → JobState Nat Nat := fun state partition =>
    { state with rows := state.rows ∪ { row | row ∈ batch partition } }
  have listed : ∀ state front, front <+: twoPartitions.parts →
      world.Answers state (.inl .listPartitions) (.ok front) state :=
    fun _ _ isFront => ⟨rfl, fun _ same => Except.ok.inj same ▸ isFront⟩
  have read : ∀ state, world.Answers state (.inl .readCursor) (.ok state.cursor.reported)
      state := fun _ => ⟨rfl, rfl, fun _ same => (Except.ok.inj same).symm⟩
  have fetched : ∀ state partition, world.Answers state (.inr (partition, .fetch))
      (.ok (evenKeys.held partition)) state :=
    fun _ _ => ⟨rfl, fun _ same => (Except.ok.inj same).symm⟩
  have mapped : ∀ state partition, world.Answers state
      (.inr (partition, .map (evenKeys.held partition))) (.ok (batch partition)) state :=
    fun _ _ => ⟨rfl, rfl⟩
  have written : ∀ state partition, world.Answers state
      (.inr (partition, .write (batch partition))) (.ok ⟨5, 0, 0⟩) (wrote state partition) :=
    fun _ _ => ⟨rfl, Set.subset_union_left, subset_rfl, fun _ => Set.subset_union_right⟩
  have advanced : ∀ (state : JobState Nat Nat) (key : Nat), world.Answers state
      (.inl (.advance key)) (.ok ()) { state with cursor := key } := fun _ _ => ⟨rfl, .inl rfl⟩
  let start : JobState Nat Nat := ⟨⊥, ∅⟩
  let halfway : JobState Nat Nat := { wrote start ⟨0, 10⟩ with cursor := (10 : Nat) }
  let finished : JobState Nat Nat := { wrote halfway ⟨10, 20⟩ with cursor := (20 : Nat) }
  let program : Bool → Program (jobSignature Nat Nat Nat) (Result (ChunkedSyncSummary Nat)) :=
    fun _ => twoRangeCycles
  have firstReads : Pool.Steps world (.start start program) _ :=
    Pool.steps_of_reaches false (.step (listed start [⟨0, 10⟩] ⟨[⟨10, 20⟩], rfl⟩)
      (.step (read start) .refl))
  have secondReads : Pool.Steps world (.start start program) _ :=
    firstReads.trans (Pool.steps_of_reaches true
      (.step (listed start twoPartitions.parts List.prefix_rfl) (.step (read start) .refl)))
  have secondRuns : Pool.Steps world (.start start program) _ :=
    secondReads.trans (Pool.steps_of_reaches true
      (.step (fetched start ⟨0, 10⟩) (.step (mapped start ⟨0, 10⟩)
        (.step (written start ⟨0, 10⟩) (.step (advanced (wrote start ⟨0, 10⟩) 10)
          (.step (fetched halfway ⟨10, 20⟩) (.step (mapped halfway ⟨10, 20⟩)
            (.step (written halfway ⟨10, 20⟩) (.step (advanced (wrote halfway ⟨10, 20⟩) 20)
              .refl)))))))))
  refine ⟨_, _, secondRuns, rfl, Pool.steps_of_reaches false
    (.step (fetched finished ⟨0, 10⟩) (.step (mapped finished ⟨0, 10⟩)
      (.step (written finished ⟨0, 10⟩) (.step (advanced (wrote finished ⟨0, 10⟩) 10) .refl)))),
    rfl, ⟨_, rfl, rfl, rfl⟩, ?_⟩
  exact List.mem_append_left _ (List.mem_append_left _
    (List.mem_append_right _ List.mem_cons_self))

/-- In this run the sink still holds the even keys of both ranges at the end. -/
theorem chunkedSyncRun_overlapping_moved_back :
    ∃ before after : Pool (jobSignature Nat Nat Nat) (JobState Nat Nat) Bool
        (Result (ChunkedSyncSummary Nat)),
      Pool.Steps (sharedWorld .replaces twoPartitions.parts evenKeys)
          (.start ⟨⊥, ∅⟩ fun _ => twoRangeCycles) before ∧
        before.state.cursor = WithBot.some 20 ∧
        Pool.Steps (sharedWorld .replaces twoPartitions.parts evenKeys) before after ∧
        after.state.cursor = WithBot.some 10 ∧
        (∃ summary, before.program true = .done (.ok summary) ∧ summary.deferred = false) ∧
        after.state.rows = evenKeys.planned twoPartitions.parts := by
  obtain ⟨before, after, secondRuns, isAhead, firstRuns, isBack,
    ⟨summary, returned, kept, finished⟩,
    listsPlan⟩ := movedBack_run
  have executions : ∀ _ : Bool, ∃ runner : Runner,
      runner.closures.Expands CursoredSync twoRangeCycles :=
    fun _ => ⟨keysRunner, _, ⟨{ jobName := "job" }, rfl⟩, rfl⟩
  have nothingLost := (chunkedSyncRun_overlapping twoPartitions evenKeys .replaces executions
    (secondRuns.trans firstRuns)).1
  exact ⟨before, after, secondRuns, isAhead, firstRuns, isBack, ⟨summary, returned, finished⟩,
    nothingLost.complete true summary kept finished listsPlan⟩

end AltairRs.Wf.Datasync
