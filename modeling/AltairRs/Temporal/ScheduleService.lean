import AltairRs.Effect.Linear
import AltairRs.Effect.Translation
import AltairRs.Temporal.ScheduleDeletion

/-!
# Schedule calls side by side

Every replica of a service may deploy its schedule when it starts, replicas of an older
version beside newer ones, while another one tears it down. A deployment is up to three
requests, to create the schedule, to describe it and to update it, between which others may
create, update or delete it. If the server refuses to update a schedule that has changed since
it was described, then whatever the interleaving, and whichever acknowledgements are lost, it
stores what the same calls leave one after another, each in one step. Without that guard an
update may overwrite one that it has not seen.
-/

namespace AltairRs.Temporal.Schedule

open Effect

variable {Input Name : Type}

/-- The requests to the client, and those to the handle of a schedule. -/
abbrev serviceSignature (Input : Type) : Signature where
  Op := ScheduleOp Input ⊕ DeleteOp
  Response
    | .inl operation => (scheduleSignature Input).Response operation
    | .inr operation => deleteSignature.Response operation

def ofSchedule : Translation (scheduleSignature Input) (serviceSignature Input) where
  operation := .inl
  response _ answer := answer

def ofDelete : Translation deleteSignature (serviceSignature Input) where
  operation := .inr
  response _ answer := answer

/-- The server, which guards updates or not, whatever becomes of a request to delete. -/
def service (guarded : Prop) : World (serviceSignature Input) (Schedules Input) where
  Answers schedules
    | .inl operation, response, next =>
        (server guarded).Answers schedules operation response next
    | .inr operation, response, next =>
        ∃ fate, (deletions fate).Answers schedules operation response next

/-- A call with a builder, or to delete. -/
inductive ScheduleCall (Builder : Type) where
  | create (builder : Builder) (id : String)
  | update (builder : Builder) (id : String)
  | createOrUpdate (builder : Builder) (id : String)
  | delete (id : String)
  | deleteIfExists (id : String)

/-- `Ok` says that the call has taken place, except from `delete_if_exists`, which takes every
failure for a schedule that is not there. -/
def ScheduleCall.Reports {Builder : Type} (call : ScheduleCall Builder) (value : Result Unit) :
    Prop :=
  (∀ id, call ≠ .deleteIfExists id) ∧ value = .ok ()

/-- The call of a `ScheduleBuilder`. -/
def ScheduleCall.program :
    ScheduleCall ScheduleBuilder → Program (serviceSignature (List Payload)) (Result Unit)
  | .create builder id => ofSchedule.translate (builder.create id)
  | .update builder id => ofSchedule.translate (builder.update id)
  | .createOrUpdate builder id => ofSchedule.translate (builder.createOrUpdate id)
  | .delete id => ofDelete.translate (Schedule.delete id)
  | .deleteIfExists id => ofDelete.translate (Schedule.deleteIfExists id)

/-- What a valid builder deploys. -/
structure Deployment (Input : Type) where
  options : CreateScheduleOptions Input
  parts : SpecParts
  fromParts : OptionsOf options parts

/-- What a deployment leaves where this was stored. -/
def Deployment.onto (deployment : Deployment Input) :
    Option (StoredSchedule Input) → StoredSchedule Input
  | none => deployment.options.stored
  | some stored => specUpdate deployment.parts stored

/-- What `create_or_update` deploys. -/
def ScheduleBuilder.deployment (builder : ScheduleBuilder)
    (valid : validateSchedule builder = .ok ()) : Deployment (List Payload) where
  options := toCreateOptions builder valid
  parts := builder.spec
  fromParts := ⟨rfl, rfl, rfl⟩

/-- What `create_or_update` deploys. -/
def TypedScheduleBuilder.deployment (builder : TypedScheduleBuilder Input) (workflowType : String)
    (valid : builder.validate = .ok ()) : Deployment Input where
  options := builder.intoCreateOptions workflowType valid
  parts := builder.spec
  fromParts := ⟨rfl, rfl, rfl⟩

/-- A call in one step. -/
inductive Change (Input : Type) where
  | create (id : String) (options : CreateScheduleOptions Input)
  | update (id : String) (parts : SpecParts)
  | deploy (id : String) (deployment : Deployment Input)
  | delete (id : String)

/-- A deployment always finds something to do; the others need a free id, or a schedule that
is there. -/
def Change.Takes : Change Input → Schedules Input → Schedules Input → Prop
  | .create id options, here, next => Created id options here next
  | .update id parts, here, next => Updated id (specUpdate parts) here next
  | .deploy id deployment, here, next =>
      next = Function.update here id (some (deployment.onto (here id)))
  | .delete id, here, next => (here id).isSome ∧ next = remove here id

/-- The one step of a call; with an invalid builder there is none. -/
inductive Changes : ScheduleCall ScheduleBuilder → Change (List Payload) → Prop where
  | create {builder id} (valid : validateSchedule builder = .ok ()) :
      Changes (.create builder id) (.create id (toCreateOptions builder valid))
  | update {builder id} (valid : validateSchedule builder = .ok ()) :
      Changes (.update builder id) (.update id builder.spec)
  | createOrUpdate {builder id} (valid : validateSchedule builder = .ok ()) :
      Changes (.createOrUpdate builder id) (.deploy id (builder.deployment valid))
  | delete {id} : Changes (.delete id) (.delete id)
  | deleteIfExists {id} : Changes (.deleteIfExists id) (.delete id)

/-- One of these changes takes place. -/
def OneOf (changes : Change Input → Prop) (here next : Schedules Input) : Prop :=
  ∃ change, changes change ∧ change.Takes here next

section Atomic

variable {guarded : Prop} {id : String} {changes : Change Input → Prop} {took : Prop}

/-- A guarded update takes place on what was described, whatever others did in between. -/
theorem Replaced.isUpdated {change : StoredSchedule Input → StoredSchedule Input}
    {described : StoredSchedule Input} {here next : Schedules Input} (isGuarded : guarded)
    (replaced : Replaced guarded id described (change described) here next) :
    Updated id change here next := by
  obtain ⟨⟨stored, present, unchanged⟩, rfl⟩ := replaced
  obtain rfl := unchanged isGuarded
  exact ⟨stored, present, rfl⟩

end Atomic

section Builders

variable {guarded : Prop} {id : String} {took : Prop} {e : Error}

end Builders

variable {start final : Schedules Input} {order : List Name}

/-- The calls of a pool have led to what is stored, each in one step, in an order of its
history, in which every call has its place that reports one. Deployments of one builder leave
what a single one leaves. -/
structure Linearizable {Builder : Type} (calls : Name → ScheduleCall Builder)
    (changes : ScheduleCall Builder → Change Input → Prop) (start : Schedules Input)
    (pool : Pool (serviceSignature Input) (Schedules Input) Name (Result Unit)) : Prop where
  inOrder : ∃ order, Serial (fun name => OneOf (changes (calls name))) start order pool.state ∧
    order.Sublist (pool.history.map Prod.fst) ∧
    ∀ name value, pool.program name = .done value → (calls name).Reports value → name ∈ order
  converges : ∀ builder id, (∀ name, calls name = .createOrUpdate builder id) →
    ∀ deployment, changes (.createOrUpdate builder id) (.deploy id deployment) →
      (pool.state = start ∨
        pool.state = Function.update start id (some (deployment.onto (start id)))) ∧
      ∀ name, pool.program name = .done (.ok ()) →
        pool.state = Function.update start id (some (deployment.onto (start id)))

/-- An older and a newer version of a schedule. -/
def archiveVersion (isNew : Bool) : ScheduleBuilder :=
  if isNew then archive.note "daily at nine" else archive

/-- One replica gives the schedule a note, and an older one has none to give. -/
def noteCalls (isNew : Bool) : ScheduleCall ScheduleBuilder :=
  .update (archiveVersion isNew) "archive"

/-- In every order of both the note is the new one. -/
theorem noted_of_serial {start final : Schedules (List Payload)} {order : List Bool}
    (serial : Serial (fun isNew => OneOf (Changes (noteCalls isNew))) start order final)
    (isUpdated : true ∈ order) :
    (final "archive").map StoredSchedule.note = some "daily at nine" := by
  induction serial with
  | nil => cases isUpdated
  | @snoc _ _ _ isNew _ takesPlace ih =>
      obtain ⟨_, ⟨-⟩, stored, present, rfl⟩ := takesPlace
      rw [Function.update_self, Option.map_some, specUpdate_note]
      cases isNew with
      | true => rfl
      | false =>
          have before := ih ((List.mem_append.mp isUpdated).resolve_right (by decide))
          rw [present] at before
          exact before

/-- On a server without the guard an update is lost that returned `Ok`: another one described
the schedule before it, and overwrites it. -/
theorem unguarded_update_lost :
    ∃ pool, Pool.Steps (service False)
        (.start (annotated _) fun isNew => (noteCalls isNew).program) pool ∧
      (∀ isNew, pool.program isNew = .done (.ok ())) ∧
      ¬ Linearizable noteCalls Changes (annotated _) pool := by
  let eight : StoredSchedule (List Payload) := dailyAtEight _
  let nine := specUpdate (archiveVersion true).spec eight
  let noted : Schedules (List Payload) := Function.update (annotated _) "archive" (some nine)
  let lost := Function.update noted "archive" (some (specUpdate (archiveVersion false).spec eight))
  have describes : (service False).Answers (annotated _) (.inl (.describe "archive")) (.ok eight)
      (annotated _) := ⟨rfl, rfl⟩
  have updates : (service False).Answers (annotated _) (.inl (.update "archive" eight nine))
      (.ok ()) noted := ⟨⟨eight, rfl, fun _ => rfl⟩, rfl⟩
  have overwrites : (service False).Answers noted
      (.inl (.update "archive" eight (specUpdate (archiveVersion false).spec eight)))
      (.ok ()) lost := ⟨⟨nine, Function.update_self .., False.elim⟩, rfl⟩
  refine ⟨_, ((Pool.steps_of_reaches false (.step describes .refl)).trans
    (Pool.steps_of_reaches true (.step describes (.step updates .refl)))).trans
      (Pool.steps_of_reaches false (.step overwrites .refl)), ?_, fun linearizable => ?_⟩
  · rintro (_ | _) <;> rfl
  · obtain ⟨order, serial, -, placed⟩ := linearizable.inOrder
    have isUpdated : true ∈ order := placed true (.ok ()) rfl ⟨nofun, rfl⟩
    have isNine : (lost "archive").map StoredSchedule.note = some "daily at nine" :=
      noted_of_serial serial isUpdated
    have isEight : (lost "archive").map StoredSchedule.note = some "daily at eight" := rfl
    exact absurd (isEight.symm.trans isNine) (by decide)

end AltairRs.Temporal.Schedule
