import Mathlib.Logic.Function.Basic
import AltairRs.Temporal.Schedule

/-!
# Deploying a schedule again

A deployment creates its schedule or, when that fails, updates the one that is
there. Both should leave the same spec, paused flag and note. They do unless the
builder has no note and the stored schedule has one, which the update keeps.
-/

namespace AltairRs.Temporal.Schedule

open Effect

variable {Input : Type}

/-- The schedules of a server by their ids. -/
abbrev Schedules (Input : Type) := String → Option (StoredSchedule Input)

/-- The schedule that a creation stores. -/
def CreateScheduleOptions.stored (options : CreateScheduleOptions Input) :
    StoredSchedule Input where
  action := options.action
  spec := options.spec
  paused := options.paused
  note := options.note

/-- A creation that takes place, on an id that is free. -/
def Created (id : String) (options : CreateScheduleOptions Input)
    (schedules next : Schedules Input) : Prop :=
  schedules id = none ∧ next = Function.update schedules id (some options.stored)

/-- An update that takes place, on a schedule that exists. -/
def Updated (id : String) (change : StoredSchedule Input → StoredSchedule Input)
    (schedules next : Schedules Input) : Prop :=
  ∃ stored, schedules id = some stored ∧
    next = Function.update schedules id (some (change stored))

/-- A request to update that takes place, on a schedule that exists, and is still what it was
described as if the server guards updates. -/
def Replaced (guarded : Prop) (id : String) (described changed : StoredSchedule Input)
    (schedules next : Schedules Input) : Prop :=
  (∃ stored, schedules id = some stored ∧ (guarded → stored = described)) ∧
    next = Function.update schedules id (some changed)

/-- The server, which may guard updates by the token that a description comes with. A request
that fails has not taken place, or its acknowledgement was lost. -/
def server (guarded : Prop) : World (scheduleSignature Input) (Schedules Input) where
  Answers schedules
    | .createSchedule id options, .ok (), next => Created id options schedules next
    | .createSchedule id options, .error _, next =>
        next = schedules ∨ Created id options schedules next
    | .describe id, .ok described, next => schedules id = some described ∧ next = schedules
    | .describe _, .error _, next => next = schedules
    | .update id described changed, .ok (), next =>
        Replaced guarded id described changed schedules next
    | .update id described changed, .error _, next =>
        next = schedules ∨ Replaced guarded id described changed schedules next

/-- The same spec, paused flag and note. -/
structure SameFields (first second : StoredSchedule Input) : Prop where
  spec : first.spec = second.spec
  paused : first.paused = second.paused
  note : first.note = second.note

/-- Whenever a deployment returns `Ok`, the schedule has the fields that a creation on a server
without the id gives it, and a further deployment changes nothing. -/
def Converges (guarded : Prop) (createOrUpdate create : ScheduleProgram Input (Result Unit))
    (id : String) (schedules : Schedules Input) : Prop :=
  ∀ events final, Returns (server guarded) createOrUpdate schedules events (.ok ()) final →
    (∃ stored, final id = some stored ∧
      ∀ fresh others created, fresh id = none →
        Returns (server guarded) create fresh others (.ok ()) created →
          ∃ fromCreate, created id = some fromCreate ∧ SameFields stored fromCreate) ∧
    ∀ others value again, Returns (server guarded) createOrUpdate final others value again →
      again = final

/-- The builder sets a note, or no other note is stored under the id. -/
def NoteSettled (parts : SpecParts) (id : String) (schedules : Schedules Input) : Prop :=
  parts.note.isSome ∨ ∀ stored, schedules id = some stored → stored.note = ""

/-- What both builders do once they are valid. -/
def createElseUpdate (id : String) (options : CreateScheduleOptions Input) (parts : SpecParts) :
    ScheduleProgram Input (Result Unit) := do
  match ← createSchedule id options with
  | .ok () => return .ok ()
  | .error (.schedule _) => applySpecUpdate id parts
  | .error other => return .error other

/-- A valid builder creates with its options. -/
theorem ScheduleBuilder.create_eq {builder : ScheduleBuilder}
    (valid : validateSchedule builder = .ok ()) (id : String) :
    builder.create id = createSchedule id (toCreateOptions builder valid) := by
  unfold ScheduleBuilder.create
  split
  · rename_i e refused
    cases valid.symm.trans refused
  · rfl

/-- It creates, or updates with its spec. -/
theorem ScheduleBuilder.createOrUpdate_eq {builder : ScheduleBuilder}
    (valid : validateSchedule builder = .ok ()) (id : String) :
    builder.createOrUpdate id =
      createElseUpdate id (toCreateOptions builder valid) builder.spec := by
  have updates : builder.update id = applySpecUpdate id builder.spec := by
    rw [ScheduleBuilder.update, valid]
  rw [ScheduleBuilder.createOrUpdate, builder.create_eq valid, updates]
  rfl

/-- A valid typed builder creates with its options. -/
theorem TypedScheduleBuilder.create_eq {builder : TypedScheduleBuilder Input}
    (valid : builder.validate = .ok ()) (workflowType id : String) :
    builder.create workflowType id =
      createSchedule id (builder.intoCreateOptions workflowType valid) := by
  unfold TypedScheduleBuilder.create
  split
  · rename_i e refused
    cases valid.symm.trans refused
  · rfl

/-- It creates, or updates with its spec. -/
theorem TypedScheduleBuilder.createOrUpdate_eq {builder : TypedScheduleBuilder Input}
    (valid : builder.validate = .ok ()) (workflowType id : String) :
    builder.createOrUpdate workflowType id =
      createElseUpdate id (builder.intoCreateOptions workflowType valid) builder.spec := by
  rw [TypedScheduleBuilder.createOrUpdate, builder.create_eq valid]
  rfl

section Runs

variable {guarded : Prop} {id : String} {options : CreateScheduleOptions Input} {parts : SpecParts}
  {schedules next final : Schedules Input} {events : List (Event (scheduleSignature Input))}
  {value : Result Unit}

/-- A call that returns has created the schedule, or failed before or after. -/
theorem returns_createSchedule
    (run : Returns (server guarded) (createSchedule id options) schedules events value next) :
    value = .ok () ∧ Created id options schedules next ∨
      ∃ text, value = .error (.schedule text) ∧
        (next = schedules ∨ Created id options schedules next) := by
  obtain ⟨response, performed, rfl⟩ := Reaches.map_iff.mp run
  have answer := Reaches.of_perform performed
  cases response with
  | ok done => exact .inl ⟨rfl, answer⟩
  | error text => exact .inr ⟨text, rfl, answer⟩

/-- What is replaced when it has just been described is updated. -/
theorem Replaced.updated {change : StoredSchedule Input → StoredSchedule Input}
    {stored : StoredSchedule Input} (present : schedules id = some stored)
    (replaced : Replaced guarded id stored (change stored) schedules next) :
    Updated id change schedules next :=
  ⟨stored, present, replaced.2⟩

/-- A handle has changed the schedule, or failed before or after. -/
theorem returns_handleUpdate {change : StoredSchedule Input → StoredSchedule Input}
    {response : Except String Unit}
    (run : Returns (server guarded) (handleUpdate id change) schedules events response next) :
    response = .ok () ∧ Updated id change schedules next ∨
      ∃ text, response = .error text ∧ (next = schedules ∨ Updated id change schedules next) := by
  obtain ⟨_, described, here, _, -, describes, rest⟩ := Reaches.of_bind run
  have answer := Reaches.of_perform describes
  cases described with
  | error text =>
      obtain rfl : here = schedules := answer
      obtain ⟨-, isResponse, rfl⟩ := rest.of_done
      cases isResponse
      exact .inr ⟨text, rfl, .inl rfl⟩
  | ok stored =>
      obtain ⟨present, rfl⟩ := answer
      have sent := Reaches.of_perform rest
      cases response with
      | ok done => exact .inl ⟨rfl, Replaced.updated present sent⟩
      | error text => exact .inr ⟨text, rfl, sent.imp_right (Replaced.updated present)⟩

/-- So has an update of the spec. -/
theorem returns_applySpecUpdate
    (run : Returns (server guarded) (applySpecUpdate id parts) schedules events value next) :
    value = .ok () ∧ Updated id (specUpdate parts) schedules next ∨
      ∃ text, value = .error (.schedule text) ∧
        (next = schedules ∨ Updated id (specUpdate parts) schedules next) := by
  obtain ⟨response, performed, rfl⟩ := Reaches.map_iff.mp run
  rcases returns_handleUpdate performed with ⟨rfl, updated⟩ | ⟨text, rfl, maybeUpdated⟩
  · exact .inl ⟨rfl, updated⟩
  · exact .inr ⟨text, rfl, maybeUpdated⟩

/-- Every deployment creates the schedule, or fails to and then updates it or not. -/
theorem returns_createElseUpdate
    (run : Returns (server guarded) (createElseUpdate id options parts) schedules events value
      final) :
    value = .ok () ∧ Created id options schedules final ∨
      ∃ middle, (middle = schedules ∨ Created id options schedules middle) ∧
        (Updated id (specUpdate parts) middle final ∨ value ≠ .ok () ∧ final = middle) := by
  obtain ⟨_, first, middle, _, -, created, rest⟩ := Reaches.of_bind run
  rcases returns_createSchedule created with ⟨rfl, isCreated⟩ | ⟨text, rfl, maybeCreated⟩
  · obtain ⟨-, isValue, rfl⟩ := rest.of_done
    cases isValue
    exact .inl ⟨rfl, isCreated⟩
  · refine .inr ⟨middle, maybeCreated, ?_⟩
    rcases returns_applySpecUpdate rest with ⟨-, updated⟩ | ⟨text, rfl, rfl | updated⟩
    · exact .inl updated
    · exact .inr ⟨nofun, rfl⟩
    · exact .inl updated

end Runs

/-- The options are those of the parts. -/
structure OptionsOf (options : CreateScheduleOptions Input) (parts : SpecParts) : Prop where
  spec : options.spec = parts.toSpec
  paused : options.paused = parts.paused
  note : options.note = parts.note.getD ""

section Fields

variable {options : CreateScheduleOptions Input} {parts : SpecParts}
  {stored : StoredSchedule Input}

/-- The update sets the spec. -/
theorem specUpdate_spec : (specUpdate parts stored).spec = parts.toSpec := by
  unfold specUpdate
  split <;> rfl

/-- It sets whether the schedule is paused. -/
theorem specUpdate_paused : (specUpdate parts stored).paused = parts.paused := by
  unfold specUpdate
  split <;> rfl

/-- It sets the note only if there is one. -/
theorem specUpdate_note : (specUpdate parts stored).note = parts.note.getD stored.note := by
  unfold specUpdate
  cases parts.note <;> rfl

/-- A new schedule has the note of the builder, or none. -/
theorem OptionsOf.note_settled (fromParts : OptionsOf options parts) :
    parts.note.isSome ∨ options.stored.note = "" := by
  have isNote : options.stored.note = parts.note.getD "" := fromParts.note
  cases note : parts.note with
  | some text => exact .inl rfl
  | none =>
      rw [note] at isNote
      exact .inr isNote

/-- A schedule that an update leaves as it is. -/
def Settled (parts : SpecParts) (stored : StoredSchedule Input) : Prop :=
  specUpdate parts stored = stored

/-- After the update the parts stand. -/
theorem settled_specUpdate (parts : SpecParts) (stored : StoredSchedule Input) :
    Settled parts (specUpdate parts stored) := by
  unfold Settled specUpdate
  cases parts.note <;> rfl

/-- After the creation they do. -/
theorem settled_stored (fromParts : OptionsOf options parts) : Settled parts options.stored := by
  obtain ⟨action, spec, paused, note⟩ := options
  obtain ⟨rfl, rfl, rfl⟩ := fromParts
  unfold Settled specUpdate
  cases parts.note <;> rfl

/-- A settled schedule has the fields of a new one, if the note has. -/
theorem Settled.sameFields (settled : Settled parts stored) (fromParts : OptionsOf options parts)
    (note : parts.note.isSome ∨ stored.note = "") : SameFields stored options.stored := by
  refine ⟨?_, ?_, ?_⟩
  · rw [← settled, specUpdate_spec]
    exact fromParts.spec.symm
  · rw [← settled, specUpdate_paused]
    exact fromParts.paused.symm
  · have isNote : stored.note = parts.note.getD stored.note :=
      (congrArg StoredSchedule.note settled).symm.trans specUpdate_note
    rw [isNote]
    refine Eq.trans ?_ fromParts.note.symm
    rcases note with isSet | isEmpty
    · obtain ⟨text, isText⟩ := Option.isSome_iff_exists.mp isSet
      rw [isText]
      rfl
    · rw [isEmpty]

end Fields

section Deployment

variable {guarded : Prop} {id : String} {options : CreateScheduleOptions Input} {parts : SpecParts}
  {schedules final : Schedules Input} {events : List (Event (scheduleSignature Input))}

/-- A deployment that returns `Ok` leaves a settled schedule, whose note is that of the builder
or the one that was there. -/
theorem deployed (fromParts : OptionsOf options parts)
    (run : Returns (server guarded) (createElseUpdate id options parts) schedules events (.ok ())
      final) :
    ∃ stored, final id = some stored ∧ Settled parts stored ∧
      (NoteSettled parts id schedules → parts.note.isSome ∨ stored.note = "") := by
  rcases returns_createElseUpdate run with ⟨-, -, rfl⟩ | ⟨middle, kept, outcome⟩
  · exact ⟨options.stored, Function.update_self .., settled_stored fromParts,
      fun _ => fromParts.note_settled⟩
  · rcases outcome with ⟨stored, isStored, rfl⟩ | ⟨notOk, -⟩
    · refine ⟨specUpdate parts stored, Function.update_self .., settled_specUpdate parts stored,
        fun noteSettled => ?_⟩
      -- The updated schedule was there before, or was created by the call that failed.
      have before : parts.note.isSome ∨ stored.note = "" := by
        rcases kept with rfl | ⟨-, rfl⟩
        · exact noteSettled.imp_right fun empty => empty stored isStored
        · rw [Function.update_self] at isStored
          obtain rfl := Option.some_inj.mp isStored
          exact fromParts.note_settled
      rw [specUpdate_note]
      cases note : parts.note with
      | some text => exact .inl rfl
      | none =>
          rw [note] at before
          exact before
    · exact absurd rfl notOk

/-- From a settled schedule no deployment changes anything, whatever it returns. -/
theorem redeployed {stored : StoredSchedule Input} (present : schedules id = some stored)
    (settled : Settled parts stored) {value : Result Unit}
    (run : Returns (server guarded) (createElseUpdate id options parts) schedules events value
      final) :
    final = schedules := by
  have notCreated : ∀ next, ¬ Created id options schedules next := fun next created =>
    Option.some_ne_none _ (present.symm.trans created.1)
  have sameUpdated : ∀ next, Updated id (specUpdate parts) schedules next → next = schedules := by
    rintro next ⟨other, isOther, rfl⟩
    obtain rfl : stored = other := Option.some_inj.mp (present.symm.trans isOther)
    rw [settled, ← present]
    exact Function.update_eq_self id schedules
  rcases returns_createElseUpdate run with ⟨-, created⟩ | ⟨middle, rfl | created, outcome⟩
  · exact absurd created (notCreated _)
  · rcases outcome with updated | ⟨-, rfl⟩
    · exact sameUpdated _ updated
    · rfl
  · exact absurd created (notCreated _)

/-- On a server without the id, a creation that returns `Ok` stores the options. -/
theorem created_eq {created : Schedules Input}
    (run : Returns (server guarded) (createSchedule id options) schedules events (.ok ()) created) :
    created id = some options.stored := by
  rcases returns_createSchedule run with ⟨-, -, rfl⟩ | ⟨text, isError, -⟩
  · exact Function.update_self ..
  · cases isError

/-- An update that takes place after a creation that has failed. -/
theorem returns_update {stored : StoredSchedule Input} (present : schedules id = some stored)
    (options : CreateScheduleOptions Input) (parts : SpecParts) :
    ∃ events, Returns (server guarded) (createElseUpdate id options parts) schedules events (.ok ())
      (Function.update schedules id (some (specUpdate parts stored))) := by
  have refused : (server guarded).Answers schedules (.createSchedule id options)
      (.error "schedule already exists") schedules := .inl rfl
  have described : (server guarded).Answers schedules (.describe id) (.ok stored) schedules :=
    ⟨present, rfl⟩
  have updated : (server guarded).Answers schedules (.update id stored (specUpdate parts stored))
      (.ok ()) (Function.update schedules id (some (specUpdate parts stored))) :=
    ⟨⟨stored, present, fun _ => rfl⟩, rfl⟩
  exact ⟨_, .step refused (.step described (.step updated .refl))⟩

/-- A creation that takes place on the empty server. -/
theorem returns_create (id : String) (options : CreateScheduleOptions Input) :
    ∃ events created,
      Returns (server guarded) (createSchedule id options) (fun _ => none) events (.ok ())
      created := by
  have created : (server guarded).Answers (fun _ => none) (.createSchedule id options) (.ok ())
      (Function.update (fun _ => none) id (some options.stored)) := ⟨rfl, rfl⟩
  exact ⟨_, _, .step created .refl⟩

/-- Deploying converges exactly when the note is settled. -/
theorem createElseUpdate_converges_iff (fromParts : OptionsOf options parts) :
    Converges guarded (createElseUpdate id options parts) (createSchedule id options) id schedules ↔
      NoteSettled parts id schedules := by
  constructor
  · intro converges
    by_cases hasNote : parts.note.isSome
    · exact .inl hasNote
    · refine .inr fun stored present => ?_
      have noNote : parts.note = none := Option.not_isSome_iff_eq_none.mp hasNote
      obtain ⟨events, run⟩ := returns_update present options parts
      obtain ⟨others, created, createdRun⟩ := returns_create id options
      obtain ⟨⟨deployed, isDeployed, likeCreated⟩, -⟩ := converges _ _ run
      obtain ⟨fromCreate, isCreated, same⟩ := likeCreated _ _ _ rfl createdRun
      rw [Function.update_self] at isDeployed
      obtain rfl := Option.some_inj.mp isDeployed
      obtain rfl := Option.some_inj.mp ((created_eq createdRun).symm.trans isCreated)
      have sameNote := same.note
      rw [specUpdate_note, noNote] at sameNote
      have noteIs : options.stored.note = parts.note.getD "" := fromParts.note
      rw [noNote] at noteIs
      exact sameNote.trans noteIs
  · intro noteSettled events final run
    obtain ⟨stored, isStored, settled, note⟩ := deployed fromParts run
    refine ⟨⟨stored, isStored, fun fresh others created _ createdRun => ?_⟩,
      fun others value again run => redeployed isStored settled run⟩
    exact ⟨options.stored, created_eq createdRun, settled.sameFields fromParts (note noteSettled)⟩

end Deployment

/-- Deploying a valid builder converges exactly when the builder sets a note, or the schedule
stored under the id, if there is one, has an empty note, whether the server guards updates or
not. -/
theorem createOrUpdate_converges_iff (guarded : Prop) :
    (∀ (builder : ScheduleBuilder) (id : String) (schedules : Schedules (List Payload)),
      validateSchedule builder = .ok () →
        (Converges guarded (builder.createOrUpdate id) (builder.create id) id schedules ↔
          NoteSettled builder.spec id schedules)) ∧
    (∀ (builder : TypedScheduleBuilder Input) (workflowType id : String)
      (schedules : Schedules Input), builder.validate = .ok () →
        (Converges guarded (builder.createOrUpdate workflowType id)
            (builder.create workflowType id) id schedules ↔
          NoteSettled builder.spec id schedules)) := by
  constructor
  · intro builder id schedules valid
    rw [builder.createOrUpdate_eq valid, builder.create_eq valid]
    exact createElseUpdate_converges_iff ⟨rfl, rfl, rfl⟩
  · intro builder workflowType id schedules valid
    rw [builder.createOrUpdate_eq valid, builder.create_eq valid]
    exact createElseUpdate_converges_iff ⟨rfl, rfl, rfl⟩

/-- A schedule without a note. -/
def archive : ScheduleBuilder :=
  (({} : ScheduleBuilder).cron "0 9 * * *").startWorkflow "Archive" "default" "archive"

/-- One for a typed workflow, with a note. -/
def typedArchive : TypedScheduleBuilder Nat where
  spec := { cronStrings := ["0 9 * * *"], note := some "daily at nine" }
  taskQueue := some "default"
  workflowId := some "archive"
  input := some 7

/-- The schedule of an earlier deployment. -/
def dailyAtEight (Input : Type) : StoredSchedule Input where
  action := ⟨"Archive", "default", "archive", none⟩
  spec := ⟨["0 8 * * *"], [], "UTC"⟩
  paused := true
  note := "daily at eight"

/-- A server on which an earlier deployment left a schedule with a note. -/
def annotated (Input : Type) : Schedules Input := fun id =>
  if id = "archive" then some (dailyAtEight Input) else none

/-- With notes of their own both builders converge. -/
theorem createOrUpdate_converges_iff_daily :
    Converges True ((archive.note "daily at nine").createOrUpdate "archive")
        ((archive.note "daily at nine").create "archive") "archive" (annotated (List Payload)) ∧
      Converges True (typedArchive.createOrUpdate "Archive" "archive")
        (typedArchive.create "Archive" "archive") "archive" (annotated Nat) :=
  have converges := @createOrUpdate_converges_iff Nat True
  ⟨(converges.1 _ _ _ rfl).mpr (.inl rfl), (converges.2 _ _ _ _ rfl).mpr (.inl rfl)⟩

/-- Deployed over the annotated schedule, the builder without a note returns `Ok` and leaves
the old note, where a creation stores an empty one. -/
theorem oldNote_kept :
    validateSchedule archive = .ok () ∧
      (∃ events final, Returns (server True) (archive.createOrUpdate "archive") (annotated _) events
        (.ok ()) final ∧ (final "archive").map StoredSchedule.note = some "daily at eight") ∧
      (∃ events created,
        Returns (server True) (archive.create "archive") (fun _ => none) events (.ok ())
        created ∧ (created "archive").map StoredSchedule.note = some "") ∧
      ¬ Converges True (archive.createOrUpdate "archive") (archive.create "archive") "archive"
        (annotated _) := by
  have valid : validateSchedule archive = .ok () := rfl
  rw [archive.createOrUpdate_eq valid, archive.create_eq valid]
  refine ⟨rfl, ?_, ?_, ?_⟩
  · have present : annotated (List Payload) "archive" = some (dailyAtEight _) := rfl
    obtain ⟨events, run⟩ := returns_update present (toCreateOptions archive valid) archive.spec
    exact ⟨events, _, run, rfl⟩
  · obtain ⟨events, created, run⟩ := returns_create "archive" (toCreateOptions archive valid)
    exact ⟨events, created, run, congrArg (Option.map StoredSchedule.note) (created_eq run)⟩
  · rw [createElseUpdate_converges_iff ⟨rfl, rfl, rfl⟩]
    rintro (hasNote | empty)
    · cases hasNote
    · exact absurd (empty _ rfl) (by decide)

end AltairRs.Temporal.Schedule
