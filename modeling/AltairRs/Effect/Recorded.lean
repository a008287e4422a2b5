import Mathlib.Logic.Relation
import AltairRs.Effect.Interference

/-!
# What a run passes through

A run shows the states in which calls are answered, but not those that the
environment passes in between. `Recorded` keeps them all, a state with every
earlier one. What is run on the record is a run, and every run can be recorded.

`Asks` bounds a trace from the program alone, by what it may request.
-/

namespace Effect

universe u v

variable {sig : Signature.{u}} {State : Type v} {α β : Type u}

/-- A state, and those passed before it. -/
structure Recorded (State : Type v) where
  now : State
  earlier : List State := []

namespace Recorded

/-- Every state on the record, the latest first. -/
def moments (here : Recorded State) : List State := here.now :: here.earlier

/-- Go on to a state. -/
def pass (here : Recorded State) (next : State) : Recorded State where
  now := next
  earlier := here.moments

/-- A moment stays on record. -/
theorem mem_pass {here : Recorded State} {moment : State} (next : State)
    (member : moment ∈ here.moments) : moment ∈ (here.pass next).moments :=
  List.mem_cons_of_mem _ member

end Recorded

namespace Service

variable {service : Service sig State} {here ready : Recorded State}

/-- The environment acts, and it is recorded. -/
inductive Records (service : Service sig State) : Recorded State → Recorded State → Prop where
  | acts {here state} (acts : service.Environment here.now state) :
      Records service here (here.pass state)

/-- The world of one program that runs alone with the environment, on the record. -/
def recorded (service : Service sig State) : World sig (Recorded State) where
  Answers start operation response next :=
    ∃ ready state, Relation.ReflTransGen service.Records start ready ∧
      service.Answers start.now ready.now operation response state ∧ next = ready.pass state

/-- The record of what an environment does. -/
theorem records_of_environment (service : Service sig State) {here : Recorded State} {state : State}
    (acts : Relation.ReflTransGen service.Environment here.now state) :
    ∃ ready, Relation.ReflTransGen service.Records here ready ∧ ready.now = state := by
  induction acts with
  | refl => exact ⟨here, .refl, rfl⟩
  | tail _ step ih =>
      obtain ⟨ready, records, rfl⟩ := ih
      exact ⟨_, records.tail (.acts step), rfl⟩

/-- Every run can be recorded. -/
theorem recorded_of_reaches (service : Service sig State) {program remainder : Program sig α}
    {state final : State}
    {events : List (Event sig)}
    (reaches : Reaches service.world program state events remainder final)
    (here : Recorded State) (isNow : here.now = state) :
    ∃ last, Reaches service.recorded program here events remainder last ∧ last.now = final := by
  induction reaches generalizing here with
  | refl => exact ⟨here, .refl, isNow⟩
  | step answer _ ih =>
      subst isNow
      obtain ⟨ready, acts, answers⟩ := answer
      obtain ⟨recordedReady, records, rfl⟩ := service.records_of_environment acts
      obtain ⟨last, rest, isLast⟩ := ih (recordedReady.pass _) rfl
      exact ⟨last, .step ⟨recordedReady, _, records, answers, rfl⟩ rest, isLast⟩

/-- The record forgets nothing of what the environment passes. -/
theorem moments_of_records (records : Relation.ReflTransGen service.Records here ready)
    {moment : State} (member : moment ∈ here.moments) : moment ∈ ready.moments := by
  induction records with
  | refl => exact member
  | tail _ step ih =>
      cases step with
      | acts => exact Recorded.mem_pass _ ih

/-- The record forgets nothing of a run. -/
theorem moments_of_reaches {program remainder : Program sig α} {final : Recorded State}
    {events : List (Event sig)}
    (reaches : Reaches service.recorded program here events remainder final)
    {moment : State} (member : moment ∈ here.moments) : moment ∈ final.moments := by
  induction reaches with
  | refl => exact member
  | step answer _ ih =>
      obtain ⟨ready, state, records, _, rfl⟩ := answer
      exact ih (Recorded.mem_pass _ (moments_of_records records member))

end Service

namespace Program

/-- Every request of the program is one of these. -/
def Asks (allowed : sig.Op → Prop) : Program sig α → Prop
  | .done _ => True
  | .request operation resume => allowed operation ∧ ∀ response, (resume response).Asks allowed

variable {allowed : sig.Op → Prop}

/-- A sequence asks for what its parts do. -/
theorem Asks.bind {program : Program sig α} {next : α → Program sig β}
    (first : program.Asks allowed) (second : ∀ value, (next value).Asks allowed) :
    (program >>= next).Asks allowed := by
  induction program with
  | done value => exact second value
  | request operation resume ih => exact ⟨first.1, fun response => ih response (first.2 response)⟩

/-- The answered requests of a run are among those the program may make. -/
theorem Asks.events {world : World sig State} {program remainder : Program sig α}
    {state final : State} {events : List (Event sig)} (asks : program.Asks allowed)
    (reaches : Reaches world program state events remainder final) :
    ∀ event ∈ events, allowed event.operation := by
  induction reaches with
  | refl => exact nofun
  | step _ _ ih => exact List.forall_mem_cons.mpr ⟨asks.1, ih (asks.2 _)⟩

end Program

end Effect
