import AltairRs.Wf.Datasync.CrashSafety

/-!
# Exactly the plans that lose nothing

The cursor remembers one key, so a restarted sync passes over every partition that
starts below the end of the last finished one. Which lists of partitions can afford
that, with ranges that may be empty, overlap, or repeat?
-/

namespace AltairRs.Wf.Datasync

open Effect

variable {K : Type}

/-- A sync that neither sleeps nor stops early. -/
def plainConfig : ChunkedSyncConfig := { jobName := "" }

/-- A partition in which nothing was found. -/
def emptyResult (partition : Partition K) : PartitionResult K :=
  ⟨partition.start, partition.endKey, 0, 0, 0, 0⟩

/-- The calls of a turn that goes well. -/
def goodTurn (partition : Partition K) : List (Event (syncSignature K)) :=
  [⟨.runPartition partition, .ok (emptyResult partition)⟩, ⟨.advance partition.endKey, .ok ()⟩]

/-- One turn of the loop can go well. -/
theorem partitionLoop_turn (parts rest : List (Partition K)) (partition : Partition K) (n i : Nat)
    (summary : ChunkedSyncSummary K) (store : CursorStore K) :
    Reaches (durableWorld parts) (partitionLoop plainConfig .some n i (partition :: rest) summary)
      store (goodTurn partition)
      (partitionLoop plainConfig .some n (i + 1) rest (summary.record (emptyResult partition)))
      partition.endKey := by
  have ran : (durableWorld parts).Answers store (.runPartition partition)
    (.ok (emptyResult partition)) store := rfl
  have advanced : (durableWorld parts).Answers store (.advance partition.endKey) (.ok ())
    partition.endKey := .inl rfl
  have awake : (sleepBetween plainConfig n i : SyncProgram K Unit) = .done () :=
    if_neg fun sleeps => sleeps.2 rfl
  refine .step ran (.step advanced ?_)
  change Reaches _ (sleepBetween plainConfig n i >>= fun _ => _) _ _ _ _
  rw [awake]
  exact .refl

/-- Turns that go well, one after another. -/
theorem partitionLoop_turns (parts done rest : List (Partition K)) (n i : Nat)
    (summary : ChunkedSyncSummary K) (store : CursorStore K) :
    ∃ i' summary' next, Reaches (durableWorld parts)
      (partitionLoop plainConfig .some n i (done ++ rest) summary) store (done.flatMap goodTurn)
      (partitionLoop plainConfig .some n i' rest summary') next := by
  induction done generalizing i summary store with
  | nil => exact ⟨i, summary, store, .refl⟩
  | cons partition done ih =>
      obtain ⟨i', summary', next, later⟩ :=
        ih (i + 1) (summary.record (emptyResult partition)) partition.endKey
      exact ⟨i', summary', next, (partitionLoop_turn parts (done ++ rest) partition n i summary
        store).trans later⟩

/-- Good turns run exactly their partitions. -/
theorem runOk_turns {done : List (Partition K)} {partition : Partition K}
    (ran : RunOk (done.flatMap goodTurn) partition) : partition ∈ done := by
  obtain ⟨result, member⟩ := ran
  obtain ⟨other, isDone, inTurn⟩ := List.mem_flatMap.mp member
  rcases List.mem_cons.mp inTurn with here | next
  · cases here
    exact isDone
  · cases List.mem_singleton.mp next

/-- Without a cap nothing is deferred. -/
theorem processPartitions_plain (parts : List (Partition K)) (summary : ChunkedSyncSummary K) :
    processPartitions plainConfig .some parts summary =
      (partitionLoop plainConfig .some parts.length 0 parts summary >>= fun
        | .error e => .done (.error e)
        | .ok summary => .done (.ok { summary with deferred := false })) := by
  have noCap : decide (0 < plainConfig.maxPartitionsPerExecution ∧
      plainConfig.maxPartitionsPerExecution < parts.length) = false :=
    decide_eq_false fun capped => absurd capped.1 (lt_irrefl 0)
  rw [processPartitions, noCap]
  rfl

/-- A partition was run in one of the parts. -/
theorem RunOk.of_append {history events : List (Event (syncSignature K))}
    {partition : Partition K} (ran : RunOk (history ++ events) partition) :
    RunOk history partition ∨ RunOk events partition := by
  obtain ⟨result, member⟩ := ran
  exact (List.mem_append.mp member).imp (fun first => ⟨result, first⟩)
    fun second => ⟨result, second⟩

/-- The calls before the loop, when they go well. -/
def opening (parts : List (Partition K)) (store : CursorStore K) : List (Event (syncSignature K)) :=
  [⟨.listPartitions, .ok parts⟩, ⟨.readCursor, .ok store.reported⟩]

/-- The opening runs nothing. -/
theorem runPartition_notMem_opening (parts : List (Partition K)) (store : CursorStore K)
    {partition : Partition K} {result : PartitionResult K} :
    (⟨.runPartition partition, .ok result⟩ : Event (syncSignature K)) ∉ opening parts store := by
  intro isOpening
  rcases List.mem_cons.mp isOpening with here | next
  · cases here
  · cases List.mem_singleton.mp next

/-- The opening runs no partition. -/
theorem runOk_opening {parts : List (Partition K)} {store : CursorStore K}
    {events : List (Event (syncSignature K))} {partition : Partition K}
    (ran : RunOk (opening parts store ++ events) partition) : RunOk events partition := by
  obtain ⟨result, member⟩ := ran
  exact ⟨result, (List.mem_append.mp member).resolve_left (runPartition_notMem_opening _ _)⟩

variable [LinearOrder K]

/-- No partition starts below the end of one listed before it, unless it is also listed
before it. -/
def InOrder (parts : List (Partition K)) : Prop :=
  ∀ before partition after, parts = before ++ partition :: after →
    ∀ later ∈ after, later.start < partition.endKey → later ∈ before ++ [partition]

/-- However often a sync is cut and repeated, an execution that returns a summary without
deferred work leaves no partition behind. -/
def NoLoss (parts : List (Partition K)) : Prop :=
  ∀ history store, Executions (durableWorld parts) CursoredSync ⊥ history store →
    ∀ config events summary final,
      Returns (durableWorld parts) (chunkedSyncRun config .some) store events (.ok summary) final →
      summary.deferred = false → ∀ partition ∈ parts, RunOk (history ++ events) partition

/-- A plan is in order. -/
theorem PartitionPlan.inOrder (plan : PartitionPlan K) : InOrder plan.parts := by
  intro before partition after same later member below
  have disjoint := plan.disjoint
  rw [same] at disjoint
  have ends := (List.pairwise_cons.mp (List.pairwise_append.mp disjoint).2.1).1 later member
  exact absurd below (not_lt.mpr ends)

/-- The order of what is left, when some partitions were run before. -/
def InOrderAfter (done : Partition K → Prop) (parts : List (Partition K)) : Prop :=
  ∀ before partition after, parts = before ++ partition :: after →
    ∀ later ∈ after, later.start < partition.endKey → done later ∨ later ∈ before ++ [partition]

namespace InOrderAfter

variable {done further : Partition K → Prop} {parts rest : List (Partition K)}
  {partition : Partition K}

/-- In order after more. -/
theorem mono (inOrder : InOrderAfter done parts) (implies : ∀ other, done other → further other) :
    InOrderAfter further parts :=
  fun before partition after same later member below =>
    (inOrder before partition after same later member below).imp_left (implies later)

/-- Once the first partition was run too, the rest is in order. -/
theorem tail (inOrder : InOrderAfter done (partition :: rest)) (ran : done partition) :
    InOrderAfter done rest := by
  rintro before other after rfl later member below
  rcases inOrder (partition :: before) other after rfl later member below with already | listed
  · exact .inl already
  · rcases List.mem_cons.mp listed with rfl | inRest
    · exact .inl ran
    · exact .inr inRest

/-- What starts below the end of the first partition was run, or is that partition. -/
theorem head (inOrder : InOrderAfter done (partition :: rest)) {later : Partition K}
    (member : later ∈ rest) (below : later.start < partition.endKey) :
    done later ∨ later = partition :=
  (inOrder [] partition rest rfl later member below).imp_right List.mem_singleton.mp

end InOrderAfter

/-- What a cursor leaves stays in order. -/
theorem InOrder.filter {parts : List (Partition K)} (inOrder : InOrder parts)
    (kept : Partition K → Bool) (done : Partition K → Prop) :
    InOrderAfter done (parts.filter kept) := by
  intro before partition after same later member below
  obtain ⟨first, second, rfl, rfl, isRest⟩ := List.filter_eq_append_iff.mp same
  obtain ⟨skipped, third, rfl, noneKept, isPartition, rfl⟩ := List.filter_eq_cons_iff.mp isRest
  obtain ⟨isLater, laterKept⟩ := List.mem_filter.mp member
  have listed := inOrder (first ++ skipped) partition third (by simp) later isLater below
  refine .inr ?_
  rcases List.mem_append.mp listed with earlier | here
  · have keptEarlier := List.mem_filter.mpr ⟨earlier, laterKept⟩
    rw [List.filter_append, List.filter_eq_nil_iff.mpr noneKept, List.append_nil] at keptEarlier
    exact List.mem_append_left _ keptEarlier
  · exact List.mem_append_right _ here

/-- The loop invariant: `todo` is what is left of this execution and `later` what it
defers. Every listed partition was run or is in one of them, and they are in order. -/
structure Left (parts todo later : List (Partition K)) (history : List (Event (syncSignature K)))
    (store : CursorStore K) : Prop where
  accounted : ∀ partition ∈ parts, RunOk history partition ∨ partition ∈ todo ++ later
  inOrder : InOrderAfter (RunOk history) (todo ++ later)
  covered : Covered parts history store

namespace Left

variable {parts todo later : List (Partition K)} {history : List (Event (syncSignature K))}
  {store : CursorStore K} {partition : Partition K}

/-- More history keeps what is left. -/
theorem append (left : Left parts todo later history store)
    (events : List (Event (syncSignature K))) :
    Left parts todo later (history ++ events) store where
  accounted other member := (left.accounted other member).imp_left fun ran => ran.append events
  inOrder := left.inOrder.mono fun _ ran => ran.append events
  covered := left.covered.append events

/-- Running the next partition leaves the rest, with the cursor where it was. -/
theorem stay (left : Left parts (partition :: todo) later history store)
    (ran : RunOk history partition) : Left parts todo later history store where
  accounted other member := by
    rcases left.accounted other member with already | listed
    · exact .inl already
    · rcases List.mem_cons.mp listed with rfl | inRest
      · exact .inl ran
      · exact .inr inRest
  inOrder := left.inOrder.tail ran
  covered := left.covered

/-- Or behind its end key. -/
theorem finish (left : Left parts (partition :: todo) later history store)
    (ran : RunOk history partition) : Left parts todo later history partition.endKey := by
  refine ⟨(left.stay ran).accounted, (left.stay ran).inOrder, fun other member below => ?_⟩
  rcases (left.stay ran).accounted other member with already | listed
  · exact already
  · rcases left.inOrder.head listed (WithBot.coe_lt_coe.mp below) with already | rfl
    · exact already
    · exact ran

/-- Truncation moves the tail of what is to do into what is deferred. -/
theorem truncate (left : Left parts todo [] history store) (count : Nat) :
    Left parts (todo.take count) (todo.drop count) history store := by
  have whole : todo.take count ++ todo.drop count = todo ++ [] := by
    rw [List.take_append_drop, List.append_nil]
  exact ⟨whole ▸ left.accounted, whole ▸ left.inOrder, left.covered⟩

/-- A covered store leaves what its cursor keeps. -/
theorem of_covered (inOrder : InOrder parts) (covered : Covered parts history store) :
    Left parts (cursorFilter store.reported parts) [] history store := by
  have kept : ∃ keeps : Partition K → Bool, cursorFilter store.reported parts =
      parts.filter keeps ∧ ∀ partition, keeps partition = true ↔ store ≤ partition.start := by
    cases store using WithBot.recBotCoe with
    | bot =>
        refine ⟨fun _ => true, ?_, fun _ => iff_of_true rfl bot_le⟩
        exact (List.filter_eq_self.mpr fun _ _ => rfl).symm
    | coe key =>
        refine ⟨_, rfl, fun partition => ?_⟩
        rw [decide_eq_true_eq, WithBot.coe_le_coe]
  obtain ⟨keeps, isFilter, keeps_iff⟩ := kept
  rw [isFilter]
  refine ⟨fun partition member => ?_, ?_, covered⟩
  · rcases lt_or_ge (partition.start : CursorStore K) store with below | above
    · exact .inl (covered partition member below)
    · rw [List.append_nil]
      exact .inr (List.mem_filter.mpr ⟨member, (keeps_iff partition).mpr above⟩)
  · rw [List.append_nil]
    exact inOrder.filter keeps _

end Left

/-- A sync keeps the store covered, wherever it moves the cursor. -/
def coverContract (parts : List (Partition K)) : Contract (syncSignature K) (CursorStore K) where
  Inv := Covered parts

section

variable {parts todo later : List (Partition K)} {config : ChunkedSyncConfig}
  {summary : ChunkedSyncSummary K} {history : List (Event (syncSignature K))}
  {store : CursorStore K}

/-- The loop keeps the store covered, and when it returns normally everything that was
not deferred has been run. -/
theorem partitionLoop_left {n i : Nat} (left : Left parts todo later history store) :
    Safe (durableWorld parts) (coverContract parts)
      (fun returned history store => ∀ final, returned = .ok final →
        Left parts [] later history store)
      (partitionLoop config .some n i todo summary) history store := by
  induction todo generalizing i summary history store with
  | nil => exact ⟨left.covered, fun _ _ => left⟩
  | cons partition rest ih =>
      refine ⟨left.covered, fun ran next same => ⟨trivial, ?_⟩⟩
      cases same
      cases ran with
      | error e => exact ⟨(left.append _).covered, nofun⟩
      | ok result =>
          have ranHere := RunOk.of_last history partition result
          have after := left.append [⟨.runPartition partition, .ok result⟩]
          refine ⟨after.covered, fun advanced moved step => ⟨trivial, ?_⟩⟩
          have onward : Left parts rest later
              (history ++ [⟨.runPartition partition, .ok result⟩]) moved := by
            rcases step with rfl | ⟨rfl, _⟩
            · exact after.finish ranHere
            · exact after.stay ranHere
          have here := onward.append [⟨.advance partition.endKey, advanced⟩]
          cases advanced with
          | error e => exact ⟨here.covered, nofun⟩
          | ok _ =>
              change Safe _ _ _ (sleepBetween config n i >>= fun _ =>
                partitionLoop config .some n (i + 1) rest (summary.record result)) _ _
              apply Safe.bind
              unfold sleepBetween
              split
              · refine ⟨here.covered, fun slept awake same => ⟨trivial, ?_⟩⟩
                cases same
                have woken := here.append [⟨.sleeper config.partitionSleep, slept⟩]
                exact ⟨woken.covered, ih woken⟩
              · exact ⟨here.covered, ih here⟩

/-- A summary without deferred work means that everything was run. -/
theorem processPartitions_left (left : Left parts todo [] history store) :
    Safe (durableWorld parts) (coverContract parts) (Completed parts)
      (processPartitions config .some todo summary) history store := by
  unfold processPartitions
  by_cases deferred : 0 < config.maxPartitionsPerExecution ∧
      config.maxPartitionsPerExecution < todo.length
  · simp only [deferred, and_self, decide_true, if_true]
    apply Safe.bind
    apply (partitionLoop_left (left.truncate _)).mono
    intro returned history store left
    cases returned with
    | error e => exact fun covered => ⟨covered, nofun⟩
    | ok final =>
        refine fun covered => ⟨covered, fun summary same impossible => ?_⟩
        cases same
        cases impossible
  · simp only [deferred, decide_false, if_neg Bool.false_ne_true]
    apply Safe.bind
    apply (partitionLoop_left left).mono
    intro returned history store left
    cases returned with
    | error e => exact fun covered => ⟨covered, nofun⟩
    | ok final =>
        refine fun covered => ⟨covered, fun summary _ _ partition member => ?_⟩
        exact ((left final rfl).accounted partition member).resolve_right List.not_mem_nil

/-- One execution keeps the store covered, and is complete without deferred work. -/
theorem chunkedSyncRun_left (inOrder : InOrder parts) (covered : Covered parts history store) :
    Safe (durableWorld parts) (coverContract parts) (Completed parts)
      (chunkedSyncRun config .some) history store := by
  rw [chunkedSyncRun_some]
  refine ⟨covered, fun listed next answer => ⟨trivial, ?_⟩⟩
  obtain ⟨rfl, isPlan⟩ := answer
  have coveredListed := covered.append [⟨.listPartitions, listed⟩]
  cases listed with
  | error e => exact ⟨coveredListed, nofun⟩
  | ok listed =>
      obtain rfl := isPlan listed rfl
      change Safe _ _ _ (if listed.isEmpty then _ else _) _ _
      split
      · rename_i empty
        refine ⟨coveredListed, fun summary _ _ partition member => ?_⟩
        rw [List.isEmpty_iff.mp empty] at member
        cases member
      · refine ⟨coveredListed, fun current next answer => ⟨trivial, ?_⟩⟩
        obtain ⟨rfl, isStore⟩ := answer
        have coveredRead := coveredListed.append [⟨.readCursor, current⟩]
        cases current with
        | error e => exact ⟨coveredRead, nofun⟩
        | ok current =>
            cases isStore current rfl
            have left := Left.of_covered inOrder coveredRead
            change Safe _ _ _ (if (cursorFilter _ listed).isEmpty then _ else _) _ _
            split
            · rename_i allDone
              refine ⟨coveredRead, fun summary _ _ partition member => ?_⟩
              have settled := left.accounted partition member
              rw [List.isEmpty_iff.mp allDone] at settled
              exact settled.resolve_right List.not_mem_nil
            · exact processPartitions_left left

/-- Of a list in order nothing is lost. -/
theorem InOrder.noLoss (inOrder : InOrder parts) : NoLoss parts := by
  intro history store executions config events summary final returned complete
  have start : (coverContract parts).Inv [] ⊥ :=
    fun partition _ below => absurd below not_lt_bot
  have covered := executions.invariant start fun program history store member covered => by
    obtain ⟨config, rfl⟩ := member
    exact chunkedSyncRun_left inOrder covered
  exact (chunkedSyncRun_left inOrder covered).post_of_returns returned summary rfl complete

end

/-- What a sync is left with behind its opening. -/
theorem chunkedSyncRun_opens {parts : List (Partition K)} (isSome : parts ≠ [])
    (store : CursorStore K) :
    Reaches (durableWorld parts) (chunkedSyncRun plainConfig .some) store (opening parts store)
      (if (cursorFilter store.reported parts).isEmpty then .done (.ok {})
        else processPartitions plainConfig .some (cursorFilter store.reported parts) {}) store := by
  have listed : (durableWorld parts).Answers store .listPartitions (.ok parts) store :=
    ⟨rfl, fun _ same => (Except.ok.inj same).symm⟩
  have read : (durableWorld parts).Answers store .readCursor (.ok store.reported) store :=
    ⟨rfl, fun _ same => (Except.ok.inj same).symm⟩
  rw [chunkedSyncRun_some]
  refine .step listed ?_
  change Reaches _ (if parts.isEmpty then _ else _) _ _ _ _
  rw [if_neg (by simpa using isSome)]
  exact .step read .refl

/-- An execution in which nothing fails runs what its cursor leaves, and no more. -/
theorem chunkedSyncRun_completes (parts : List (Partition K)) (store : CursorStore K) :
    ∃ events summary final,
      Returns (durableWorld parts) (chunkedSyncRun plainConfig .some) store events (.ok summary)
        final ∧ summary.deferred = false ∧
      ∀ partition, RunOk events partition → partition ∈ cursorFilter store.reported parts := by
  by_cases isSome : parts = []
  · subst isSome
    have listed : (durableWorld ([] : List (Partition K))).Answers store .listPartitions (.ok [])
      store := ⟨rfl, fun _ same => (Except.ok.inj same).symm⟩
    have returned : Returns (durableWorld []) (chunkedSyncRun plainConfig .some) store
        [⟨.listPartitions, .ok []⟩] (.ok {}) store := by
      rw [chunkedSyncRun_some]
      exact .step listed .refl
    refine ⟨_, _, _, returned, rfl, ?_⟩
    rintro partition ⟨result, member⟩
    cases List.mem_singleton.mp member
  have opens := chunkedSyncRun_opens isSome store
  by_cases nothingLeft : (cursorFilter store.reported parts).isEmpty = true
  · rw [if_pos nothingLeft] at opens
    refine ⟨_, _, _, opens, rfl, ?_⟩
    rintro partition ⟨result, member⟩
    exact absurd member (runPartition_notMem_opening _ _)
  · rw [if_neg nothingLeft, processPartitions_plain] at opens
    obtain ⟨_, summary, final, turns⟩ := partitionLoop_turns parts
      (cursorFilter store.reported parts) [] _ 0 {} store
    rw [List.append_nil] at turns
    exact ⟨_, _, _, opens.trans (turns.bind _), rfl, fun partition ran =>
      runOk_turns (runOk_opening ran)⟩

/-- A first execution may be cut right behind any partition. -/
theorem chunkedSyncRun_cut (before after : List (Partition K)) (partition : Partition K) :
    ∃ remainder, Reaches (durableWorld (before ++ partition :: after))
      (chunkedSyncRun plainConfig .some) ⊥
      (opening (before ++ partition :: after) ⊥ ++ (before ++ [partition]).flatMap goodTurn)
      remainder partition.endKey := by
  have isSome : before ++ partition :: after ≠ [] := by simp
  have opens := chunkedSyncRun_opens isSome ⊥
  have isWhole : cursorFilter (CursorStore.reported ⊥) (before ++ partition :: after) =
      before ++ partition :: after := rfl
  rw [isWhole, if_neg (by simp), processPartitions_plain] at opens
  obtain ⟨i, summary, next, turns⟩ := partitionLoop_turns (before ++ partition :: after) before
    (partition :: after) (before ++ partition :: after).length 0 {} ⊥
  have last := partitionLoop_turn (before ++ partition :: after) after partition
    (before ++ partition :: after).length i summary next
  rw [List.flatMap_append, List.flatMap_singleton]
  exact ⟨_, opens.trans ((turns.trans last).bind _)⟩

/-- If nothing is lost, the list is in order: a partition that starts below the end of an
earlier one is passed over behind that end. -/
theorem NoLoss.inOrder {parts : List (Partition K)} (noLoss : NoLoss parts) : InOrder parts := by
  rintro before partition after rfl later member below
  obtain ⟨remainder, cut⟩ := chunkedSyncRun_cut before after partition
  obtain ⟨events, summary, final, returned, complete, ranOnly⟩ :=
    chunkedSyncRun_completes (before ++ partition :: after) partition.endKey
  have isSync : CursoredSync (chunkedSyncRun plainConfig .some : SyncProgram K _) :=
    ⟨plainConfig, rfl⟩
  have executions := Executions.snoc .nil isSync cut
  have isListed : later ∈ before ++ partition :: after :=
    List.mem_append_right _ (List.mem_cons_of_mem _ member)
  have ran :=
    noLoss _ _ executions plainConfig events summary final returned complete later isListed
  rw [List.nil_append] at ran
  rcases RunOk.of_append ran with first | second
  · exact runOk_turns (runOk_opening first)
  · have kept := ranOnly later second
    have above : partition.endKey ≤ later.start := of_decide_eq_true (List.mem_filter.mp kept).2
    exact absurd below (not_lt.mpr above)

/-- Nothing is ever lost of exactly the lists in order. -/
theorem noLoss_iff_inOrder (parts : List (Partition K)) : NoLoss parts ↔ InOrder parts :=
  ⟨NoLoss.inOrder, InOrder.noLoss⟩

end AltairRs.Wf.Datasync
