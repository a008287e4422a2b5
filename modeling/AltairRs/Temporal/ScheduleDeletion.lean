import AltairRs.Run.Visits
import AltairRs.Temporal.ScheduleConvergence

/-!
# Deleting a schedule that may not exist

`delete_if_exists` takes every failure of its request for a schedule that was not there.
Over any sequence of calls, what it promises is kept exactly if no request of it fails
without effect while the schedule is there.
-/

namespace AltairRs.Temporal.Schedule

open Effect Run

variable {Input : Type}

/-- What becomes of a request to delete: the server answers it, or it fails for another
reason, before or after it has taken place. -/
inductive DeleteFate where
  | answered
  | failed (tookPlace : Bool)
deriving DecidableEq, Repr

/-- Take a schedule away. -/
def remove (schedules : Schedules Input) (id : String) : Schedules Input :=
  Function.update schedules id none

/-- The server, given what becomes of the request. -/
def deletions (fate : DeleteFate) : World deleteSignature (Schedules Input) where
  Answers schedules := fun
    | .delete id, response, next =>
        match fate, response with
        | .answered, .ok () => (schedules id).isSome ∧ next = remove schedules id
        | .answered, .error e => schedules id = none ∧ e.isNotFound ∧ next = schedules
        | .failed _, .ok () => False
        | .failed tookPlace, .error e =>
            e.isNotFound = false ∧ next = if tookPlace then remove schedules id else schedules

/-- A call, of either builder once it is valid; a request to delete with its fate. -/
inductive Call (Input : Type) where
  | create (id : String) (options : CreateScheduleOptions Input)
  | update (id : String) (parts : SpecParts)
  | createOrUpdate (id : String) (options : CreateScheduleOptions Input) (parts : SpecParts)
  | delete (id : String) (fate : DeleteFate)
  | deleteIfExists (id : String) (fate : DeleteFate)

/-- A call that may leave a schedule where there was none. -/
def Call.Creates (id : String) : Call Input → Prop
  | .create other _ | .createOrUpdate other _ _ => other = id
  | .update .. | .delete .. | .deleteIfExists .. => False

/-- A call, and what it returned. -/
structure Called (Input : Type) where
  call : Call Input
  result : Result Unit

/-- A call runs against the server, which guards updates or not. -/
inductive Serves (guarded : Prop) : Schedules Input → Called Input → Schedules Input → Prop where
  | create {schedules id options events result next}
      (run : Returns (server guarded) (createSchedule id options) schedules events result next) :
      Serves guarded schedules ⟨.create id options, result⟩ next
  | update {schedules id parts events result next}
      (run : Returns (server guarded) (applySpecUpdate id parts) schedules events result next) :
      Serves guarded schedules ⟨.update id parts, result⟩ next
  | createOrUpdate {schedules id options parts events result next}
      (run : Returns (server guarded) (createElseUpdate id options parts) schedules events result
        next) :
      Serves guarded schedules ⟨.createOrUpdate id options parts, result⟩ next
  | delete {schedules id fate events result next}
      (run : Returns (deletions fate) (delete id) schedules events result next) :
      Serves guarded schedules ⟨.delete id fate, result⟩ next
  | deleteIfExists {schedules id fate events result next}
      (run : Returns (deletions fate) (deleteIfExists id) schedules events result next) :
      Serves guarded schedules ⟨.deleteIfExists id fate, result⟩ next

/-- The visits of a session. -/
abbrev Session (Input : Type) := List (Visit (Schedules Input) (Called Input))

/-- After `Ok` from `delete_if_exists` the schedule is not there, until it may have been
created again. -/
def StaysDeleted (guarded : Prop) (session : Session Input) : Prop :=
  ∀ front visit middle back id fate here, session = front ++ visit :: (middle ++ back) →
    visit.label = ⟨.deleteIfExists id fate, .ok ()⟩ →
      Visits (Serves guarded) visit.after middle here →
        (∀ later ∈ middle, ¬ later.label.call.Creates id) → here id = none

/-- The request of a `delete_if_exists` does not fail, without effect, on a schedule that
is there. -/
def Reported (visit : Visit (Schedules Input) (Called Input)) : Prop :=
  ∀ id, visit.label.call = .deleteIfExists id (.failed false) → visit.before id = none

variable {guarded : Prop} {schedules next start final : Schedules Input} {id : String}

/-- What was removed is not there. -/
theorem remove_self (schedules : Schedules Input) (id : String) : remove schedules id id = none :=
  Function.update_self ..

/-- A removal brings nothing back. -/
theorem remove_eq_none {other : String} (absent : schedules id = none) :
    remove schedules other id = none := by
  by_cases same : id = other
  · rw [same]
    exact remove_self ..
  · rwa [remove, Function.update_of_ne same]

/-- What a deletion leaves. -/
structure Deleted (id : String) (fate : DeleteFate) (schedules next : Schedules Input) : Prop where
  either : next = schedules ∨ next = remove schedules id
  gone : fate ≠ .failed false → next id = none
  kept : fate = .failed false → next = schedules

/-- It returns `Ok` or a schedule error. -/
theorem returns_delete {fate : DeleteFate} {events : List (Event deleteSignature)}
    {result : Result Unit}
    (run : Returns (deletions fate) (delete id) schedules events result next) :
    Deleted id fate schedules next ∧
      (result = .ok () ∨ ∃ text, result = .error (.schedule text)) := by
  obtain ⟨response, performed, rfl⟩ := Reaches.map_iff.mp run
  have answer := Reaches.of_perform performed
  cases response with
  | ok done =>
      cases fate with
      | answered =>
          obtain ⟨-, rfl⟩ := answer
          exact ⟨⟨.inr rfl, fun _ => remove_self .., nofun⟩, .inl rfl⟩
      | failed tookPlace => exact answer.elim
  | error e =>
      refine ⟨?_, .inr ⟨e.message, rfl⟩⟩
      cases fate with
      | answered =>
          obtain ⟨absent, -, rfl⟩ := answer
          exact ⟨.inl rfl, fun _ => absent, fun _ => rfl⟩
      | failed tookPlace =>
          obtain ⟨-, rfl⟩ := answer
          cases tookPlace with
          | true => exact ⟨.inr rfl, fun _ => remove_self .., nofun⟩
          | false => exact ⟨.inl rfl, fun other => absurd rfl other, fun _ => rfl⟩

/-- It returns `Ok`, whatever becomes of the request. -/
theorem returns_deleteIfExists {fate : DeleteFate} {events : List (Event deleteSignature)}
    {result : Result Unit}
    (run : Returns (deletions fate) (deleteIfExists id) schedules events result next) :
    Deleted id fate schedules next ∧ result = .ok () := by
  obtain ⟨_, first, middle, _, -, deleted, rest⟩ := Reaches.of_bind run
  obtain ⟨isDeleted, rfl | ⟨text, rfl⟩⟩ := returns_delete deleted
  · obtain ⟨-, isResult, rfl⟩ := rest.of_done
    cases isResult
    exact ⟨isDeleted, rfl⟩
  · obtain ⟨-, isResult, rfl⟩ := rest.of_done
    cases isResult
    exact ⟨isDeleted, rfl⟩

/-- A schedule is updated where it is. -/
theorem Updated.eq_none {other : String} {change : StoredSchedule Input → StoredSchedule Input}
    (updated : Updated other change schedules next) (absent : schedules id = none) :
    next id = none := by
  obtain ⟨stored, isStored, rfl⟩ := updated
  have different : id ≠ other := by
    rintro rfl
    exact Option.some_ne_none _ (isStored.symm.trans absent)
  rwa [Function.update_of_ne different]

/-- A schedule is created under its own id. -/
theorem Created.eq_none {other : String} {options : CreateScheduleOptions Input}
    (created : Created other options schedules next) (different : other ≠ id)
    (absent : schedules id = none) : next id = none := by
  obtain ⟨-, rfl⟩ := created
  rwa [Function.update_of_ne different.symm]

/-- Only a creation brings a schedule back. -/
theorem Serves.eq_none {called : Called Input} (serves : Serves guarded schedules called next)
    (notCreated : ¬ called.call.Creates id) (absent : schedules id = none) : next id = none := by
  cases serves with
  | create run =>
      rcases returns_createSchedule run with ⟨-, created⟩ | ⟨_, -, rfl | created⟩
      · exact created.eq_none notCreated absent
      · exact absent
      · exact created.eq_none notCreated absent
  | update run =>
      rcases returns_applySpecUpdate run with ⟨-, updated⟩ | ⟨_, -, rfl | updated⟩
      · exact updated.eq_none absent
      · exact absent
      · exact updated.eq_none absent
  | createOrUpdate run =>
      rcases returns_createElseUpdate run with ⟨-, created⟩ | ⟨middle, kept, outcome⟩
      · exact created.eq_none notCreated absent
      · have middleAbsent : middle id = none := by
          rcases kept with rfl | created
          · exact absent
          · exact created.eq_none notCreated absent
        rcases outcome with updated | ⟨-, rfl⟩
        · exact updated.eq_none middleAbsent
        · exact middleAbsent
  | delete run =>
      rcases (returns_delete run).1.either with rfl | rfl
      · exact absent
      · exact remove_eq_none absent
  | deleteIfExists run =>
      rcases (returns_deleteIfExists run).1.either with rfl | rfl
      · exact absent
      · exact remove_eq_none absent

/-- In any session the schedules that `delete_if_exists` says are gone stay gone exactly
if no request of it fails, without effect, on a schedule that is there. -/
theorem deleteIfExists_sound_iff {session : Session Input}
    (run : Visits (Serves guarded) start session final) :
    StaysDeleted guarded session ↔ ∀ visit ∈ session, Reported visit := by
  constructor
  · intro stays visit member id isCall
    obtain ⟨front, back, rfl⟩ := List.append_of_mem member
    have serves := run.step_of_mem member
    obtain ⟨before, ⟨call, result⟩, after⟩ := visit
    obtain rfl : call = .deleteIfExists id (.failed false) := isCall
    cases serves with
    | deleteIfExists returns =>
        obtain ⟨deleted, rfl⟩ := returns_deleteIfExists returns
        have gone : after id = none :=
          stays front _ [] back id (.failed false) after rfl rfl .nil (List.forall_mem_nil _)
        have same : after = before := deleted.kept rfl
        rwa [same] at gone
  · rintro reported front visit middle back id fate here rfl isLabel rest notCreated
    have member : visit ∈ front ++ visit :: (middle ++ back) :=
      List.mem_append_right _ List.mem_cons_self
    have isReported := reported visit member
    have serves := run.step_of_mem member
    obtain ⟨before, _, after⟩ := visit
    obtain rfl := isLabel
    have gone : after id = none := by
      cases serves with
      | deleteIfExists returns =>
          obtain ⟨deleted, -⟩ := returns_deleteIfExists returns
          by_cases failed : fate = .failed false
          · have same : after = before := deleted.kept failed
            rw [same]
            exact isReported id (by rw [failed])
          · exact deleted.gone failed
    have step (later : Visit (Schedules Input) (Called Input))
        (isOther : ¬ later.label.call.Creates id)
        (serves : Serves guarded later.before later.label later.after)
        (absent : later.before id = none) : later.after id = none :=
      serves.eq_none isOther absent
    exact rest.preserves (fun schedules => schedules id = none) step notCreated gone

/-- Nothing is stored. -/
def noSchedules : Schedules Unit := fun _ => none

/-- The server answers that there is no such schedule. -/
def answeredSession : Session Unit :=
  [⟨noSchedules, ⟨.deleteIfExists "nightly" .answered, .ok ()⟩, noSchedules⟩]

/-- A schedule that is not there stays away. -/
theorem deleteIfExists_sound_iff_answered :
    StaysDeleted True answeredSession ↔ ∀ visit ∈ answeredSession, Reported visit := by
  have answer : (deletions .answered).Answers noSchedules (.delete "nightly")
      (.error ⟨true, "schedule not found"⟩) noSchedules := ⟨rfl, rfl, rfl⟩
  have serves : Serves True noSchedules ⟨.deleteIfExists "nightly" .answered, .ok ()⟩ noSchedules :=
    .deleteIfExists (.step answer .refl)
  exact deleteIfExists_sound_iff (.cons serves .nil)

/-- A schedule that is there. -/
def nightlySchedule : StoredSchedule Unit where
  action := ⟨"report", "main", "nightly-report", none⟩
  spec := ⟨["0 3 * * *"], [], ""⟩
  paused := false
  note := ""

/-- The request is not delivered, and `delete_if_exists` returns `Ok`. -/
theorem undelivered_stillThere :
    ¬ ∀ (start : Schedules Unit) (session : Session Unit) (final : Schedules Unit),
      Visits (Serves True) start session final → StaysDeleted True session := by
  intro always
  let stored : Schedules Unit := fun _ => some nightlySchedule
  have answer : (deletions (.failed false)).Answers stored (.delete "nightly")
      (.error ⟨false, "transport error"⟩) stored := ⟨rfl, rfl⟩
  have serves : Serves True stored ⟨.deleteIfExists "nightly" (.failed false), .ok ()⟩ stored :=
    .deleteIfExists (.step answer .refl)
  have stays := always stored _ stored (.cons serves .nil)
  cases stays [] _ [] [] "nightly" (.failed false) stored rfl rfl .nil (List.forall_mem_nil _)

end AltairRs.Temporal.Schedule
