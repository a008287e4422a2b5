import Mathlib.Data.List.Induction
import AltairRs.Concurrent.Executor
import AltairRs.Concurrent.InFlight

/-!
# Results under every completion order

Without a timeout, a panic, or a cancellation, what the executors return depends
on the results of the tasks alone; only which failure the fail-fast executor
names is decided by the order of completion.
-/

namespace AltairRs.Concurrent

open Effect Keyed

variable {T E : Type} {tasks : List (String × TaskFn T E)} {set token : Nat}
  {consumed : List (String × TaskEnd T E)}

/-- The next outcome comes, for every task has a result of its own. -/
theorem nextOutcome_settles {here : Runtime T E}
    (inFlight : InFlightAt tasks set token consumed here)
    (owned : ∀ entry ∈ tasks, ∃ result, entry.2.Own result) :
    Settles (runtime Quiet)
      (fun outcome next => ∃ raw, outcome = outcomeOf raw ∧ Joins tasks set token consumed raw next)
      (nextOutcome set token none) here := by
  have joins : Settles (runtime Quiet) (fun raw next => Joins tasks set token consumed raw next)
      (joinNext set) here := by
    refine perform_settles (.joinNext set) ?_ ?_
    · obtain ⟨ready, raw, after, rests, polled⟩ := inFlight.joinable owned
      exact ⟨ready, raw, _, rests, after, polled, rfl⟩
    · rintro ready raw next rests ⟨after, polled, rfl⟩
      exact (inFlight.rests owned rests).joins polled
  exact Settles.bind (joins.mono fun raw next joined => ⟨raw, rfl, joined⟩)

/-- Once spawned, the tasks are in flight. -/
theorem spawnAll_settles {here : Runtime T E} (rest : List (String × TaskFn T E))
    (inFlight : InFlightAt tasks set token consumed here)
    (owned : ∀ entry ∈ tasks ++ rest, ∃ result, entry.2.Own result) :
    Settles (runtime Quiet) (fun _ next => InFlightAt (tasks ++ rest) set token consumed next)
      (spawnAll set token rest) here := by
  induction rest generalizing tasks here with
  | nil =>
      rw [List.append_nil]
      exact inFlight
  | cons entry rest ih =>
      obtain ⟨name, task⟩ := entry
      have spawned : Settles (runtime Quiet)
          (fun _ next => InFlightAt (tasks ++ [(name, task)]) set token consumed next)
          (spawn set { name, task, token }) here := by
        refine perform_settles (.spawn set _) ⟨here, (), _, .refl, rfl⟩ ?_
        rintro ready _ next rests rfl
        have atReady := inFlight.rests (fun entry member =>
          owned entry (List.mem_append_left _ member)) rests
        rw [InFlightAt, Runtime.put_joinSet_self, Runtime.put_cancelled]
        exact atReady.spawn name task
      apply Settles.seq spawned
      intro _ next atNext
      rw [List.append_cons] at owned ⊢
      exact ih atNext owned

/-- A token nobody has cancelled and a set with every task in flight. -/
theorem started_settles {here : Runtime T E} (map : TaskMap T E) (cancellation : Option Nat)
    (live : ∀ token, cancellation = some token → here.cancelled token = false)
    (owned : ∀ entry ∈ map.entries, ∃ result, entry.2.Own result) :
    Settles (runtime Quiet)
      (fun token ready => Settles (runtime Quiet)
        (fun set next => set = here.sets ∧ InFlightAt map.entries set token [] next)
        (spawnTasks map token) ready)
      (tokenOrDefault cancellation) here := by
  have spawns : ∀ token (ready : Runtime T E), ready.cancelled token = false →
      ready.sets = here.sets → Settles (runtime Quiet)
        (fun set next => set = here.sets ∧ InFlightAt map.entries set token [] next)
        (spawnTasks map token) ready := by
    intro token ready isLive sameSets
    have isNew : Settles (runtime Quiet)
        (fun set next => set = here.sets ∧ InFlightAt [] set token [] next) newSet ready := by
      refine perform_settles .newSet ⟨ready, _, _, .refl, rfl, rfl⟩ ?_
      rintro later set next rests ⟨rfl, rfl⟩
      refine ⟨rests.unchanged.2.trans sameSets, ?_⟩
      have isEmpty : ((later.put later.sets {}).joinSet later.sets) = {} :=
        Runtime.put_joinSet_self ..
      have stillLive : later.cancelled token = false := by rw [rests.unchanged.1, isLive]
      change InFlight [] token [] later.cancelled ((later.put later.sets {}).joinSet later.sets)
      rw [isEmpty]
      exact ⟨stillLive, .nil, nofun, nofun, List.prefix_refl _, rfl⟩
    apply Settles.seq isNew
    rintro set next ⟨rfl, atNext⟩
    apply Settles.seq (spawnAll_settles map.entries atNext owned)
    exact fun _ final inFlight => ⟨rfl, inFlight⟩
  cases cancellation with
  | some token => exact spawns token here (live token rfl) rfl
  | none =>
      refine perform_settles .newToken ⟨here, _, _, .refl, rfl, rfl⟩ ?_
      rintro ready token next rests ⟨rfl, rfl⟩
      exact spawns _ _ (by simp) rests.unchanged.2

/-- The results gathered are those consumed. -/
def Collects {α : Type} (wrap : α → Except E T) (consumed : List (String × TaskEnd T E))
    (results : AList fun _ : String => α) : Prop :=
  ∀ name value, results.lookup name = some value ↔ (name, .returned (wrap value)) ∈ consumed

/-- One more result is collected under a fresh name. -/
theorem Collects.insert {α : Type} {wrap : α → Except E T} {results : AList fun _ : String => α}
    (collects : Collects wrap consumed results) (injective : Function.Injective wrap)
    {name : String} (fresh : ∀ entry ∈ consumed, entry.1 ≠ name) (value : α) :
    Collects wrap (consumed ++ [(name, .returned (wrap value))]) (results.insert name value) := by
  intro other found
  rw [List.mem_append, List.mem_singleton]
  by_cases same : other = name
  · subst same
    rw [AList.lookup_insert, Option.some_inj]
    constructor
    · rintro rfl
      exact .inr rfl
    · rintro (old | isNew)
      · exact absurd rfl (fresh _ old)
      · simp only [Prod.mk.injEq, TaskEnd.returned.injEq, true_and] at isNew
        exact (injective isNew).symm
  · rw [AList.lookup_insert_ne same, collects other found]
    simp [same]

/-- The first task to complete with an error. -/
def FirstError (completed : List (String × TaskEnd T E)) (name : String) (e : E) : Prop :=
  ∃ before, before ++ [(name, .returned (.error e))] <+: completed ∧
    ∀ entry ∈ before, ∃ v, entry.2 = .returned (.ok v)

/-- What the fail-fast executor returns. -/
inductive FailFastEnd (tasks : List (String × TaskFn T E))
    (completed : List (String × TaskEnd T E)) :
    Option (Result E (AList fun _ : String => T)) → Prop where
  | succeeded {results} (all : ∀ entry ∈ tasks, ∃ v, entry.2.Own (.ok v))
      (exact : ∀ name v, results.lookup name = some v ↔
        ∃ task, (name, task) ∈ tasks ∧ task.Own (.ok v)) :
      FailFastEnd tasks completed (some (.ok results))
  | failed {name task e} (isTask : (name, task) ∈ tasks) (own : task.Own (.error e))
      (first : FirstError completed name e) :
      FailFastEnd tasks completed (some (.error (.taskFailed name e)))

/-- Cancelling and shutting down forget no completion. -/
theorem stop_settles {α : Type} {here : Runtime T E} (set token : Nat) (value : α)
    {completed : List (String × TaskEnd T E)}
    (isFront : completed <+: (here.joinSet set).completed) :
    Settles (runtime Quiet)
      (fun returned next => returned = value ∧ completed <+: (next.joinSet set).completed)
      (do
        cancel token
        shutdown set
        return value : RuntimeProgram T E α) here := by
  refine Settles.bind (perform_settles (.cancel token) ⟨here, (), _, .refl, rfl⟩ ?_)
  rintro ready _ _ rests rfl
  have atReady := isFront.trans (rests.completed set)
  refine Settles.bind (perform_settles (.shutdown set) ⟨_, (), _, .refl, rfl⟩ ?_)
  rintro later _ _ rests rfl
  refine ⟨rfl, ?_⟩
  rw [Runtime.put_joinSet_self]
  exact atReady.trans (rests.completed set)

/-- Nobody has cancelled, so the loop goes on. -/
theorem cancelledAndEmpty_settles {here : Runtime T E}
    (inFlight : InFlightAt tasks set token consumed here)
    (owned : ∀ entry ∈ tasks, ∃ result, entry.2.Own result) :
    Settles (runtime Quiet)
      (fun stops next => stops = false ∧ InFlightAt tasks set token consumed next)
      (cancelledAndEmpty set token) here := by
  have isLive : Settles (runtime Quiet)
      (fun stops next => stops = false ∧ InFlightAt tasks set token consumed next)
      (isCancelled token) here := by
    refine perform_settles (.isCancelled token) ⟨here, _, _, .refl, rfl, rfl⟩ ?_
    rintro ready _ _ rests ⟨rfl, rfl⟩
    have atReady := inFlight.rests owned rests
    exact ⟨atReady.live, atReady⟩
  apply Settles.seq isLive
  rintro _ next ⟨rfl, atNext⟩
  exact ⟨rfl, atNext⟩

/-- The fail-fast loop, from any front consumed without an error. -/
theorem failFastLoop_settles (distinct : (tasks.map Prod.fst).Nodup)
    (owned : ∀ entry ∈ tasks, ∃ result, entry.2.Own result) (fuel : Nat)
    {results : AList fun _ : String => T} {here : Runtime T E}
    (inFlight : InFlightAt tasks set token consumed here)
    (succeeded : ∀ entry ∈ consumed, ∃ v, entry.2 = .returned (.ok v))
    (collects : Collects Except.ok consumed results)
    (enough : tasks.length < fuel + consumed.length) :
    Settles (runtime Quiet)
      (fun value final => FailFastEnd tasks (final.joinSet set).completed value)
      (failFastLoop set token none fuel results) here := by
  induction fuel generalizing consumed results here with
  | zero =>
      have bounded := inFlight.consumed_le
      omega
  | succ fuel ih =>
      apply Settles.seq (nextOutcome_settles inFlight owned)
      rintro _ next ⟨raw, rfl, ⟨rfl, atNext, idle, isAll⟩ | joined⟩
      · have isSettled := atNext.settled idle isAll distinct
        refine .succeeded (fun entry member => ?_) fun name v => ?_
        · obtain ⟨result, own⟩ := owned entry member
          obtain ⟨v, isOk⟩ := succeeded _ ((isSettled entry.1 result).mpr ⟨_, member, own⟩)
          cases isOk
          exact ⟨v, own⟩
        · rw [collects name v, isSettled]
      · obtain ⟨name, task, result, rfl, isTask, own, atNext⟩ := joined
        have fresh := atNext.fresh distinct
        cases result with
        | error e =>
            apply (stop_settles set token _ atNext.isFront).mono
            rintro _ final ⟨rfl, isFront⟩
            exact .failed isTask own ⟨consumed, isFront, succeeded⟩
        | ok v =>
            apply Settles.seq (cancelledAndEmpty_settles atNext owned)
            rintro _ later ⟨rfl, atLater⟩
            refine ih atLater ?_ (collects.insert (fun _ _ => Except.ok.inj) fresh v) ?_
            · intro entry member
              rcases List.mem_append.mp member with old | isNew
              · exact succeeded entry old
              · rw [List.mem_singleton.mp isNew]
                exact ⟨v, rfl⟩
            · simp only [List.length_append, List.length_singleton]
              omega

/-- The partial-results loop, from any front consumed. -/
theorem partialLoop_settles (distinct : (tasks.map Prod.fst).Nodup)
    (owned : ∀ entry ∈ tasks, ∃ result, entry.2.Own result) (fuel : Nat)
    {results : PartialResults T E} {here : Runtime T E}
    (inFlight : InFlightAt tasks set token consumed here)
    (collects : Collects id consumed results) (enough : tasks.length < fuel + consumed.length) :
    Settles (runtime Quiet)
      (fun value _ => ∃ results, value = some (.ok results) ∧ ∀ name result,
        results.lookup name = some result ↔ ∃ task, (name, task) ∈ tasks ∧ task.Own result)
      (partialLoop set token none fuel results) here := by
  induction fuel generalizing consumed results here with
  | zero =>
      have bounded := inFlight.consumed_le
      omega
  | succ fuel ih =>
      apply Settles.seq (nextOutcome_settles inFlight owned)
      rintro _ next ⟨raw, rfl, ⟨rfl, atNext, idle, isAll⟩ | joined⟩
      · refine ⟨results, rfl, fun name result => ?_⟩
        rw [collects name result]
        exact atNext.settled idle isAll distinct name result
      · obtain ⟨name, task, result, rfl, isTask, own, atNext⟩ := joined
        have fresh := atNext.fresh distinct
        refine ih atNext (collects.insert (fun _ _ => id) fresh result) ?_
        simp only [List.length_append, List.length_singleton]
        omega

/-- The task inserted last under a name. -/
def lastInsert (inserts : List (String × TaskFn T E)) (name : String) : Option (TaskFn T E) :=
  inserts.reverse.lookup name

/-- The task map that successive inserts build. -/
def TaskMap.ofInserts (inserts : List (String × TaskFn T E)) : TaskMap T E :=
  inserts.foldl (fun map entry => map.insert entry.1 entry.2) TaskMap.new

/-- The map holds under every name the task inserted last. -/
theorem TaskMap.mem_ofInserts (inserts : List (String × TaskFn T E)) (name : String)
    (task : TaskFn T E) :
    (name, task) ∈ (TaskMap.ofInserts inserts).entries ↔ lastInsert inserts name = some task := by
  induction inserts using List.reverseRecOn with
  | nil => simp [TaskMap.ofInserts, TaskMap.new, OrderedMap.empty, lastInsert]
  | append_singleton inserts entry ih =>
      obtain ⟨key, value⟩ := entry
      rw [TaskMap.ofInserts, List.foldl_append]
      apply (OrderedMap.mem_insert _ key value (name, task)).trans
      rw [lastInsert, List.reverse_append, List.reverse_singleton, List.singleton_append,
        List.lookup_cons]
      by_cases same : name = key
      · subst same
        simp [eq_comm]
      · have different : (name == key) = false := beq_false_of_ne same
        rw [different]
        simp only [Prod.mk.injEq, same, false_and, false_or, ne_eq, not_false_eq_true, true_and]
        exact ih

/-- What the two executors return for these inserts, whatever the order in which the
tasks complete: the fail-fast one every value or the first failure, the other one
every result. -/
structure ExactResults (inserts : List (String × TaskFn T E)) (cancellation : Option Nat)
    (fuel : Nat) (here : Runtime T E) : Prop where
  failFast : Settles (runtime Quiet)
    (fun value final =>
      ((∃ results, value = some (.ok results)) ↔
        ∀ name task, lastInsert inserts name = some task → ∃ v, task.Own (.ok v)) ∧
      (∀ results, value = some (.ok results) → ∀ name v, results.lookup name = some v ↔
        ∃ task, lastInsert inserts name = some task ∧ task.Own (.ok v)) ∧
      ((¬ ∃ results, value = some (.ok results)) → ∃ name task e,
        lastInsert inserts name = some task ∧ task.Own (.error e) ∧
        value = some (.error (.taskFailed name e)) ∧
        FirstError (final.joinSet here.sets).completed name e))
    (runFailFast fuel { tasks := TaskMap.ofInserts inserts, cancellation }) here
  partialResults : Settles (runtime Quiet)
    (fun value _ => ∃ results, value = some (.ok results) ∧ ∀ name result,
      results.lookup name = some result ↔
        ∃ task, lastInsert inserts name = some task ∧ task.Own result)
    (runPartial fuel { tasks := TaskMap.ofInserts inserts, cancellation }) here

/-- Without a timeout, a panic, or a cancellation, both executors return exact
results. -/
theorem executors_exact (inserts : List (String × TaskFn T E)) (cancellation : Option Nat)
    (fuel : Nat) (here : Runtime T E)
    (owned : ∀ name task, lastInsert inserts name = some task → ∃ result, task.Own result)
    (live : ∀ token, cancellation = some token → here.cancelled token = false)
    (enough : (TaskMap.ofInserts inserts).len < fuel) :
    ExactResults inserts cancellation fuel here := by
  have distinct := (TaskMap.ofInserts inserts).distinct
  have ownedEntries : ∀ entry ∈ (TaskMap.ofInserts inserts).entries,
      ∃ result, entry.2.Own result := fun entry member =>
    owned entry.1 entry.2 ((TaskMap.mem_ofInserts inserts _ _).mp member)
  have started := started_settles (TaskMap.ofInserts inserts) cancellation live ownedEntries
  have nothing : ∀ {α : Type} (wrap : α → Except E T), Collects wrap [] ∅ := by
    intro α wrap name value
    simp
  constructor
  · refine Settles.bind (started.mono fun token ready spawns => Settles.bind (spawns.mono ?_))
    rintro _ next ⟨rfl, inFlight⟩
    refine (failFastLoop_settles distinct ownedEntries fuel inFlight nofun (nothing _) enough).mono
      fun value final isEnd => ?_
    cases isEnd with
    | @succeeded results all exact =>
        refine ⟨⟨fun _ name task isLast => ?_, fun _ => ⟨results, rfl⟩⟩, ?_, fun absent => ?_⟩
        · exact all _ ((TaskMap.mem_ofInserts inserts name task).mpr isLast)
        · rintro _ ⟨⟩ name v
          simp only [exact name v, TaskMap.mem_ofInserts]
        · exact absurd ⟨results, rfl⟩ absent
    | @failed name task e isTask own first =>
        have isLast := (TaskMap.mem_ofInserts inserts name task).mp isTask
        refine ⟨⟨nofun, fun all => ?_⟩, nofun, fun _ => ⟨name, task, e, isLast, own, rfl, first⟩⟩
        obtain ⟨v, isOk⟩ := all name task isLast
        cases own.unique isOk
  · refine Settles.bind (started.mono fun token ready spawns => Settles.bind (spawns.mono ?_))
    rintro _ next ⟨rfl, inFlight⟩
    apply (partialLoop_settles distinct ownedEntries fuel inFlight (nothing _) enough).mono
    rintro value final ⟨results, isOk, exact⟩
    refine ⟨results, isOk, fun name result => ?_⟩
    simp only [exact name result, TaskMap.mem_ofInserts]

/-- A task that ends with one result, cancelled or not. -/
def TaskFn.finishing (result : Except E T) : TaskFn T E := fun _ ended => ended = .returned result

/-- Two tasks under three inserts: the replaced one fails, so does the one beside it. -/
def threeInserts : List (String × TaskFn Nat String) :=
  [("k", .finishing (.error "old")), ("bad", .finishing (.error "boom")),
    ("k", .finishing (.ok 2))]

/-- The executors are exact on them. -/
theorem executors_exact_three_inserts : ExactResults threeInserts none 3 {} := by
  refine executors_exact threeInserts none 3 {} (fun name task isLast => ?_) nofun (by decide)
  have member : (name, task) ∈ threeInserts.reverse := by
    obtain ⟨before, after, isSplit, _⟩ := List.lookup_eq_some_iff.mp isLast
    simp [isSplit]
  simp only [threeInserts, List.reverse_cons, List.reverse_nil, List.nil_append, List.cons_append,
    List.mem_cons, Prod.mk.injEq, List.not_mem_nil, or_false] at member
  rcases member with ⟨_, rfl⟩ | ⟨_, rfl⟩ | ⟨_, rfl⟩
  · exact ⟨_, fun _ => Iff.rfl⟩
  · exact ⟨_, fun _ => Iff.rfl⟩
  · exact ⟨_, fun _ => Iff.rfl⟩

end AltairRs.Concurrent
