import AltairRs.Data.Keyed
import AltairRs.Effect.Program
import AltairRs.Run.Visits
import AltairRs.Wf.Function.Payload

/-!
# Named handlers

A registry is a handle on a map from names to handlers, and its clones are handles on
the same map. Every call takes the lock of the map, so the calls of all tasks come in
one order. Whatever that order is, the answers are those of a log of registrations
that never names a handler twice.
-/

namespace AltairRs.Wf.Function

open Effect Run

variable {H : Type}

/-- A handle on one of the shared maps; `clone` copies it. -/
structure Registry where
  inner : Nat
deriving DecidableEq, Repr

/-- The calls of a registry. -/
inductive RegistryOp (H : Type) where
  | new
  | register (registry : Registry) (name : String) (handler : H)
  | has (registry : Registry) (name : String)
  | get (registry : Registry) (name : String)
  | len (registry : Registry)

abbrev registrySignature (H : Type) : Signature where
  Op := RegistryOp H
  Response
    | .new => Registry
    | .register .. => Result Unit
    | .has .. => Bool
    | .get .. => Result H
    | .len .. => Nat

/-- The registry a call is made on. -/
def RegistryOp.registry? : RegistryOp H → Option Registry
  | .new => none
  | .register registry _ _ | .has registry _ | .get registry _ | .len registry => some registry

/-- The maps behind the handles. -/
abbrev Registries (H : Type) := List (Parameters H)

/-- The map behind a handle. -/
def Registries.inner (maps : Registries H) (registry : Registry) : Parameters H :=
  maps.getD registry.inner ∅

def alreadyRegistered (name : String) : Error :=
  .invalidInput s!"handler already registered: {name}"

def notFound [DebugText String] (name : String) : Error :=
  .invalidInput s!"function {DebugText.debug name} not found in registry"

/-- `Registry::register`, under the lock. -/
def register (map : Parameters H) (name : String) (handler : H) : Result Unit × Parameters H :=
  if name ∈ map then (.error (alreadyRegistered name), map)
  else (.ok (), map.insert name handler)

/-- A name that is taken is refused. -/
theorem register_of_mem {map : Parameters H} {name : String} (taken : name ∈ map) (handler : H) :
    register map name handler = (.error (alreadyRegistered name), map) := if_pos taken

/-- A free name is registered. -/
theorem register_of_notMem {map : Parameters H} {name : String} (free : name ∉ map)
    (handler : H) : register map name handler = (.ok (), map.insert name handler) := if_neg free

/-- `Registry::get`, under the lock. -/
def get [DebugText String] (map : Parameters H) (name : String) : Result H :=
  match map.lookup name with
  | some handler => .ok handler
  | none => .error (notFound name)

/-- The calls of all registries. -/
def registries [DebugText String] : Handler (registrySignature H) (Registries H)
  | maps, .new => (⟨maps.length⟩, maps ++ [∅])
  | maps, .register registry name handler =>
      let answer := register (maps.inner registry) name handler
      (answer.1, maps.set registry.inner answer.2)
  | maps, .has registry name => (decide (name ∈ maps.inner registry), maps)
  | maps, .get registry name => (get (maps.inner registry) name, maps)
  | maps, .len registry => ((maps.inner registry).entries.length, maps)

/-- A call on handles that `new` returned. -/
def RegistryStep [DebugText String] (maps : Registries H) (event : Event (registrySignature H))
    (next : Registries H) : Prop :=
  (∀ registry ∈ event.operation.registry?, registry.inner < maps.length) ∧
    registries maps event.operation = (event.response, next)

/-- The registration an event made on a registry. -/
def registrationOf (registry : Registry) : Event (registrySignature H) → Option (String × H)
  | ⟨.register on name handler, .ok _⟩ => if on = registry then some (name, handler) else none
  | _ => none

/-- The successful registrations on a registry, in order. -/
def registrations (registry : Registry) (events : List (Event (registrySignature H))) :
    List (String × H) :=
  events.filterMap (registrationOf registry)

/-- A registration that succeeds is one. -/
theorem registrationOf_self (registry : Registry) (name : String) (handler : H) :
    registrationOf registry ⟨.register registry name handler, .ok ()⟩ = some (name, handler) :=
  if_pos rfl

/-- A registration elsewhere is none here. -/
theorem registrationOf_other {registry on : Registry} (elsewhere : on ≠ registry) (name : String)
    (handler : H) (answer : Result Unit) :
    registrationOf registry ⟨.register on name handler, answer⟩ = none := by
  cases answer with
  | error _ => rfl
  | ok _ => exact if_neg elsewhere

/-- An event adds at most one registration. -/
theorem registrations_concat (registry : Registry) (events : List (Event (registrySignature H)))
    (event : Event (registrySignature H)) :
    registrations registry (events ++ [event]) =
      registrations registry events ++ (registrationOf registry event).toList := by
  rw [registrations, List.filterMap_append]
  cases made : registrationOf registry event with
  | none => rw [List.filterMap_cons_none made]; rfl
  | some entry => rw [List.filterMap_cons_some made]; rfl

/-- A new registry is empty. -/
theorem Registries.inner_concat (maps : Registries H) (registry : Registry) :
    Registries.inner (maps ++ [∅]) registry = maps.inner registry := by
  rw [inner, inner, List.getD_eq_getElem?_getD, List.getD_eq_getElem?_getD]
  by_cases less : registry.inner < maps.length
  · rw [List.getElem?_append_left less]
  · have outside : maps.length ≤ registry.inner := Nat.not_lt.mp less
    rw [List.getElem?_append_right outside, List.getElem?_eq_none outside]
    cases registry.inner - maps.length <;> rfl

/-- A registry that is set has its map. -/
theorem Registries.inner_set_self {maps : Registries H} {registry : Registry}
    (known : registry.inner < maps.length) (map : Parameters H) :
    Registries.inner (maps.set registry.inner map) registry = map := by
  rw [inner, List.getD_eq_getElem?_getD, List.getElem?_set_self known, Option.getD_some]

/-- The others stay. -/
theorem Registries.inner_set_other (maps : Registries H) {registry other : Registry}
    (different : other ≠ registry) (map : Parameters H) :
    Registries.inner (maps.set registry.inner map) other = maps.inner other := by
  have elsewhere : registry.inner ≠ other.inner := fun same =>
    different (congrArg Registry.mk same.symm)
  rw [inner, List.getD_eq_getElem?_getD, List.getElem?_set_ne elsewhere,
    ← List.getD_eq_getElem?_getD, inner]

/-- What a call is answered after the events of `history`. -/
def AnsweredBy [DebugText String] (history : List (Event (registrySignature H))) :
    Event (registrySignature H) → Prop
  | ⟨.new, registry⟩ => ∀ earlier ∈ history, earlier.operation.registry? ≠ some registry
  | ⟨.register registry name _, answer⟩ =>
      answer = if name ∈ (registrations registry history).map Prod.fst
        then .error (alreadyRegistered name) else .ok ()
  | ⟨.has registry name, answer⟩ =>
      answer = decide (name ∈ (registrations registry history).map Prod.fst)
  | ⟨.get registry name, answer⟩ =>
      answer = match (registrations registry history).lookup name with
        | some handler => .ok handler
        | none => .error (notFound name)
  | ⟨.len registry, answer⟩ => answer = (registrations registry history).length

/-- The maps hold the registrations of the history, each map those on its registry. -/
structure Kept (history : List (Event (registrySignature H))) (maps : Registries H) : Prop where
  entries : ∀ registry, (maps.inner registry).entries =
    ((registrations registry history).map fun entry => ⟨entry.1, entry.2⟩).reverse
  known : ∀ event ∈ history, ∀ registry ∈ event.operation.registry?,
    registry.inner < maps.length

section

variable {history : List (Event (registrySignature H))} {maps next : Registries H}
  {event : Event (registrySignature H)}

/-- At first nothing is kept. -/
theorem kept_nil : Kept ([] : List (Event (registrySignature H))) [] :=
  ⟨fun _ => rfl, nofun⟩

namespace Kept

/-- A name is in the map exactly when it was registered. -/
theorem mem_inner (kept : Kept history maps) (registry : Registry) (name : String) :
    name ∈ maps.inner registry ↔ name ∈ (registrations registry history).map Prod.fst := by
  rw [AList.mem_keys, AList.keys, List.keys, kept.entries registry]
  simp

/-- No name is registered twice. -/
theorem distinct (kept : Kept history maps) (registry : Registry) :
    ((registrations registry history).map Prod.fst).Nodup := by
  have keysDistinct := (maps.inner registry).nodupKeys
  rw [List.NodupKeys, List.keys, kept.entries registry, List.map_reverse,
    List.nodup_reverse, List.map_map] at keysDistinct
  exact keysDistinct

/-- A name is looked up in the registrations. -/
theorem lookup_inner (kept : Kept history maps) (registry : Registry) (name : String) :
    (maps.inner registry).lookup name = (registrations registry history).lookup name := by
  ext handler
  rw [Keyed.lookup_eq_some_iff (kept.distinct registry), ← Option.mem_def,
    AList.mem_lookup_iff, kept.entries registry]
  simp

/-- A registry has an entry for each registration. -/
theorem length_inner (kept : Kept history maps) (registry : Registry) :
    (maps.inner registry).entries.length = (registrations registry history).length := by
  rw [kept.entries registry, List.length_reverse, List.length_map]

end Kept

variable [DebugText String]

/-- A call is answered from the registrations. -/
theorem answeredBy_of_step (step : RegistryStep maps event next) (kept : Kept history maps) :
    AnsweredBy history event := by
  obtain ⟨operation, response⟩ := event
  obtain ⟨-, answered⟩ := step
  cases operation with
  | new =>
      obtain ⟨rfl, -⟩ := Prod.mk.inj answered
      intro earlier member same
      exact lt_irrefl _ (kept.known earlier member _ same)
  | register registry name handler =>
      obtain ⟨rfl, -⟩ := Prod.mk.inj answered
      simp only [AnsweredBy, ← kept.mem_inner registry name, register]
      split <;> rfl
  | has registry name =>
      obtain ⟨rfl, -⟩ := Prod.mk.inj answered
      exact decide_eq_decide.mpr (kept.mem_inner registry name)
  | get registry name =>
      obtain ⟨rfl, -⟩ := Prod.mk.inj answered
      simp only [AnsweredBy, get, kept.lookup_inner registry name]
  | len registry =>
      obtain ⟨rfl, -⟩ := Prod.mk.inj answered
      exact kept.length_inner registry

omit [DebugText String] in
/-- What is held after an event, from what was held before it. -/
theorem Kept.concat (kept : Kept history maps)
    (held : ∀ registry, (next.inner registry).entries =
      ((registrationOf registry event).map fun entry => ⟨entry.1, entry.2⟩).toList ++
        (maps.inner registry).entries)
    (grows : maps.length ≤ next.length)
    (known : ∀ registry ∈ event.operation.registry?, registry.inner < next.length) :
    Kept (history ++ [event]) next where
  entries registry := by
    rw [held, kept.entries, registrations_concat, List.map_append, List.reverse_append]
    cases registrationOf registry event <;> rfl
  known := by
    intro earlier member registry onRegistry
    rcases List.mem_append.mp member with before | here
    · exact (kept.known earlier before registry onRegistry).trans_le grows
    · rw [List.mem_singleton.mp here] at onRegistry
      exact known registry onRegistry

/-- Every call keeps the maps and the registrations the same. -/
theorem kept_step (step : RegistryStep maps event next) (kept : Kept history maps) :
    Kept (history ++ [event]) next := by
  obtain ⟨operation, response⟩ := event
  obtain ⟨known, answered⟩ := step
  cases operation with
  | new =>
      obtain ⟨rfl, rfl⟩ := Prod.mk.inj answered
      refine kept.concat (fun registry => ?_) ?_ nofun
      · rw [Registries.inner_concat]
        rfl
      · rw [List.length_append]
        exact Nat.le_add_right _ _
  | register registry name handler =>
      obtain ⟨rfl, rfl⟩ := Prod.mk.inj answered
      have inRange := known registry rfl
      refine kept.concat (fun other => ?_) List.length_set.ge fun other isOther => ?_
      · by_cases same : other = registry
        · subst same
          rw [Registries.inner_set_self inRange]
          by_cases taken : name ∈ maps.inner other
          · rw [register_of_mem taken]
            rfl
          · rw [register_of_notMem taken, AList.entries_insert_of_notMem taken]
            dsimp only
            rw [registrationOf_self]
            rfl
        · rw [Registries.inner_set_other _ same, registrationOf_other (Ne.symm same)]
          rfl
      · rw [List.length_set]
        exact known other isOther
  | has registry name =>
      obtain ⟨rfl, rfl⟩ := Prod.mk.inj answered
      exact kept.concat (fun _ => rfl) le_rfl known
  | get registry name =>
      obtain ⟨rfl, rfl⟩ := Prod.mk.inj answered
      exact kept.concat (fun _ => rfl) le_rfl known
  | len registry =>
      obtain ⟨rfl, rfl⟩ := Prod.mk.inj answered
      exact kept.concat (fun _ => rfl) le_rfl known

variable {visits : List (Visit (Registries H) (Event (registrySignature H)))}

/-- Over every run the calls of all handles are answered from the log of registrations,
in which the registrations of one registry never repeat a name. -/
theorem registry_write_once (run : Visits RegistryStep [] visits next) :
    (∀ (before : List (Visit _ _)) (visit : Visit _ _) (after : List (Visit _ _)),
      visits = before ++ visit :: after → AnsweredBy (before.map Visit.label) visit.label) ∧
    ∀ registry, ((registrations registry (visits.map Visit.label)).map Prod.fst).Nodup := by
  constructor
  · rintro before visit after rfl
    obtain ⟨step, kept⟩ := run.history_at Kept kept_step kept_nil
    exact answeredBy_of_step step kept
  · intro registry
    exact (run.preserves_history Kept kept_step kept_nil).distinct registry

end

/-- `{:?}` of a text in which nothing has to be escaped. -/
abbrev plainDebug : DebugText String := ⟨fun text => "\"" ++ text ++ "\""⟩

/-- One registry with one handler. -/
def greeting : Registries Bool := [AList.insert "greet" true ∅]

/-- A second registration of a name, through a clone, and what is found then. -/
def registeredTwice : List (Visit (Registries Bool) (Event (registrySignature Bool))) :=
  [⟨[], ⟨.new, ⟨0⟩⟩, [∅]⟩,
    ⟨[∅], ⟨.register ⟨0⟩ "greet" true, .ok ()⟩, greeting⟩,
    ⟨greeting, ⟨.register ⟨0⟩ "greet" false, .error (alreadyRegistered "greet")⟩, greeting⟩,
    ⟨greeting, ⟨.get ⟨0⟩ "greet", .ok true⟩, greeting⟩]

/-- The run in which a name is registered twice. -/
theorem registeredTwice_run :
    Visits (@RegistryStep Bool plainDebug) [] registeredTwice greeting := by
  refine .cons ⟨nofun, rfl⟩ (.cons ⟨?_, rfl⟩ (.cons ⟨?_, rfl⟩ (.cons ⟨?_, rfl⟩ .nil))) <;>
    · rintro registry ⟨⟩
      exact Nat.zero_lt_one

/-- The first registration is the one that is got. -/
theorem registry_write_once_registeredTwice :
    @AnsweredBy Bool plainDebug ((registeredTwice.take 3).map Visit.label)
      ⟨.get ⟨0⟩ "greet", .ok true⟩ :=
  (@registry_write_once Bool _ plainDebug _ registeredTwice_run).1 (registeredTwice.take 3) _ []
    rfl

end AltairRs.Wf.Function
