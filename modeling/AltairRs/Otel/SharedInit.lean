import AltairRs.Effect.Pool
import AltairRs.Otel.InitAtomicity

/-!
# Initializing from several threads

The calls of a process may come from any of its threads. What `init` does to a global is
one step, and between two of its steps any others may come. Only who has set the
subscriber reaches the slot, and only once: in every interleaving one `init` at most
returns `Ok`, it always finds the slot free, and `shutdown` flushes the provider that the
subscriber writes to.
-/

namespace AltairRs.Otel

open Effect

/-- What the calls do to the globals. That an exporter can be built comes with the step. -/
inductive GlobalOp where
  | setTextMapPropagator
  | buildTracerProvider (config : Config) (spanExporter : Except String Unit) (resource : Resource)
  | buildMeterProvider (config : Config) (metricExporter : Except String Unit) (resource : Resource)
  | setTracerProvider (provider : Provider)
  | setMeterProvider (provider : Provider)
  | setSubscriber (subscriber : Subscriber)
  | setLogger
  | install (providers : InstalledProviders)
  | shutdown (panics : Bool)

abbrev globalSignature : Signature where
  Op := GlobalOp
  Response
    | .buildTracerProvider .. | .buildMeterProvider .. => Result Provider
    | .setSubscriber _ | .setLogger | .install _ => Bool
    | .setTextMapPropagator | .setTracerProvider _ | .setMeterProvider _ | .shutdown _ => Unit

abbrev GlobalProgram (α : Type) := Program globalSignature α

/-- The steps. A subscriber and a logger are set once; the slot is locked for a step. -/
def globalHandler : Handler globalSignature Globals
  | globals, .setTextMapPropagator => ((), { globals with hasPropagator := true })
  | globals, .buildTracerProvider config spanExporter resource =>
      buildTracerProvider config spanExporter resource globals
  | globals, .buildMeterProvider config metricExporter resource =>
      buildMeterProvider config metricExporter resource globals
  | globals, .setTracerProvider provider => ((), { globals with tracerProvider := some provider })
  | globals, .setMeterProvider provider => ((), { globals with meterProvider := some provider })
  | globals, .setSubscriber subscriber =>
      match globals.subscriber with
      | some _ => (false, globals)
      | none => (true, { globals with subscriber := some subscriber })
  | globals, .setLogger =>
      if globals.hasLogger then (false, globals) else (true, { globals with hasLogger := true })
  | globals, .install providers => install providers globals
  | globals, .shutdown panics => ((), shutdown panics globals)

/-- `try_init`. -/
def tryInitProgram (subscriber : Subscriber) : GlobalProgram Bool := do
  if ← Program.perform globalSignature (.setSubscriber subscriber) then
    Program.perform globalSignature .setLogger
  else
    return false

/-- `init`, step by step. -/
def initProgram (config : Config) (spanExporter metricExporter : Except String Unit) :
    GlobalProgram (Result Unit) := do
  Program.perform globalSignature .setTextMapPropagator
  let resource := buildResource config
  match ← Program.perform globalSignature
      (.buildTracerProvider config spanExporter resource) with
  | .error e => return .error e
  | .ok tracerProvider =>
      match ← Program.perform globalSignature
          (.buildMeterProvider config metricExporter resource) with
      | .error e => return .error e
      | .ok meterProvider =>
          Program.perform globalSignature (.setTracerProvider tracerProvider)
          Program.perform globalSignature (.setMeterProvider meterProvider)
          if ← tryInitProgram (.registry tracerProvider config.logFormat) then
            if ← Program.perform globalSignature (.install ⟨tracerProvider, meterProvider⟩) then
              return .ok ()
            else
              return .error .alreadyInitialized
          else
            return .error .alreadyInitialized

/-- A call, step by step. -/
def Call.program : Call → GlobalProgram (Result Unit)
  | .init config spanExporter metricExporter => initProgram config spanExporter metricExporter
  | .shutdown panics => do
      Program.perform globalSignature (.shutdown panics)
      return .ok ()
  | .setSubscriber => do
      let _ ← Program.perform globalSignature (.setSubscriber .foreign)
      return .ok ()
  | .setLogger => do
      let _ ← Program.perform globalSignature .setLogger
      return .ok ()

/-- Alone, the steps of `try_init` do what it does. -/
theorem tryInitProgram_gives (tracer : Provider) (format : LogFormat) (globals : Globals) :
    globalHandler.Gives (tryInitProgram (.registry tracer format)) globals
      (tryInit tracer format globals).1 (tryInit tracer format globals).2 := by
  obtain ⟨_, _, _, subscriber, hasLogger, _, _, _⟩ := globals
  cases subscriber with
  | some subscriber => exact ⟨rfl, rfl⟩
  | none => cases hasLogger <;> exact ⟨rfl, rfl⟩

/-- Alone, the steps of `init` do what it does. -/
theorem initProgram_gives (config : Config) (spanExporter metricExporter : Except String Unit)
    (globals : Globals) :
    globalHandler.Gives (initProgram config spanExporter metricExporter) globals
      (init config spanExporter metricExporter globals).1
      (init config spanExporter metricExporter globals).2 := by
  unfold init initProgram
  refine .bind (.perform rfl) ?_
  rcases isTracer : buildTracerProvider config spanExporter (buildResource config)
    { globals with hasPropagator := true } with ⟨_ | tracer, afterTracer⟩
  · simp only [isTracer]
    exact .bind (.perform isTracer) (.done _)
  simp only [isTracer]
  refine .bind (.perform isTracer) ?_
  rcases isMeter : buildMeterProvider config metricExporter (buildResource config) afterTracer with
    ⟨_ | meter, afterMeter⟩
  · exact .bind (.perform isMeter) (.done _)
  dsimp only
  refine .bind (.perform isMeter) (.bind (.perform rfl) (.bind (.perform rfl) ?_))
  refine .bind (tryInitProgram_gives tracer config.logFormat _) ?_
  rcases isTried : tryInit tracer config.logFormat
    { afterMeter with tracerProvider := some tracer, meterProvider := some meter } with
    ⟨_ | _, afterTried⟩
  · exact .done _
  dsimp only
  rcases isInstalled : install ⟨tracer, meter⟩ afterTried with ⟨_ | _, afterInstalled⟩
  · exact .bind (.perform isInstalled) (.done _)
  · exact .bind (.perform isInstalled) (.done _)

/-- A call that nobody interrupts is done in one step. -/
theorem Call.program_gives (call : Call) (globals : Globals) :
    globalHandler.Gives call.program globals (call.perform globals).1 (call.perform globals).2 := by
  cases call with
  | init config spanExporter metricExporter => exact initProgram_gives ..
  | shutdown panics => exact .bind (.perform rfl) (.done _)
  | setSubscriber =>
      obtain ⟨_, _, _, subscriber, _, _, _, _⟩ := globals
      cases subscriber <;> exact ⟨rfl, rfl⟩
  | setLogger =>
      obtain ⟨_, _, _, _, hasLogger, _, _, _⟩ := globals
      cases hasLogger <;> exact ⟨rfl, rfl⟩

/-- What is kept of the steps of a thread. -/
inductive Mark where
  | subscribed (tracer : Provider)
  | installed (providers : InstalledProviders) (done : Bool)
deriving DecidableEq, Repr

/-- A step that sets the subscriber, or tries to fill the slot. -/
def markOf : Event globalSignature → Option Mark
  | ⟨.setSubscriber (.registry tracer _), true⟩ => some (.subscribed tracer)
  | ⟨.install providers, done⟩ => some (.installed providers done)
  | _ => none

variable {Name : Type} {history later : SharedHistory globalSignature Name} {name : Name}
  {event : Event globalSignature} {marks : List (Name × Mark)} {globals next : Globals}
  {tracer : Provider} {format : LogFormat} {providers : InstalledProviders}

/-- The marks of all threads. -/
def marksOf (history : SharedHistory globalSignature Name) : List (Name × Mark) :=
  history.filterMap fun answer => (markOf answer.2).map (answer.1, ·)

/-- An event that leaves no mark changes none. -/
theorem marksOf_plain (history : SharedHistory globalSignature Name) (name : Name)
    (isPlain : markOf event = none) : marksOf (history ++ [(name, event)]) = marksOf history := by
  simp [marksOf, isPlain]

/-- An event's mark is the last one. -/
theorem marksOf_append (history : SharedHistory globalSignature Name) (name : Name)
    (event : Event globalSignature) {mark : Mark} (isMark : markOf event = some mark) :
    marksOf (history ++ [(name, event)]) = marksOf history ++ [(name, mark)] := by
  simp [marksOf, isMark]

/-- Who has left the mark of filling the slot has done so. -/
theorem install_of_mark {done : Bool}
    (installed : (name, .installed providers done) ∈ marksOf history) :
    (name, ⟨.install providers, done⟩) ∈ history := by
  obtain ⟨⟨who, operation, response⟩, member, isMark⟩ := List.mem_filterMap.mp installed
  obtain ⟨mark, marked, same⟩ := Option.map_eq_some_iff.mp isMark
  cases same
  cases operation with
  | install others =>
      cases marked
      exact member
  | setSubscriber subscriber =>
      cases subscriber with
      | foreign => cases marked
      | registry tracer format => cases response <;> cases marked
  | _ => cases marked

/-- One thread at most has set the subscriber, and only that one has filled the slot, with one
pair of providers, and has not failed to. What was flushed is that pair. -/
structure Orderly (marks : List (Name × Mark)) (globals : Globals) : Prop where
  one : ∀ name other tracer meter, (name, .subscribed tracer) ∈ marks →
    (other, .subscribed meter) ∈ marks → name = other
  installer : ∀ name providers done, (name, .installed providers done) ∈ marks →
    done = true ∧ (name, .subscribed providers.tracer) ∈ marks
  single : ∀ name other providers others done otherDone, (name, .installed providers done) ∈ marks →
    (other, .installed others otherDone) ∈ marks → providers = others
  subscribed : ∀ name tracer, (name, .subscribed tracer) ∈ marks →
    ∃ format, globals.subscriber = some (.registry tracer format)
  free : (∀ name providers done, (name, .installed providers done) ∉ marks) →
    globals.slot = none ∧ globals.flushed = []
  filled : ∀ cell providers, globals.slot = some cell → cell.providers = some providers →
    globals.flushed = [] ∧ ∃ name, (name, .installed providers true) ∈ marks
  flushed : globals.flushed = [] ∨ ∃ name providers, (name, .installed providers true) ∈ marks ∧
    globals.flushed = [providers.tracer, providers.meter]

/-- Nothing is set and nothing was done. -/
theorem Orderly.start : Orderly ([] : List (Name × Mark)) {} where
  one _ _ _ _ := nofun
  installer _ _ _ := nofun
  single _ _ _ _ _ _ := nofun
  subscribed _ _ := nofun
  free _ := ⟨rfl, rfl⟩
  filled _ _ := nofun
  flushed := .inl rfl

/-- The slot and what was flushed are the same, and the subscriber if there was one. -/
structure SameSlot (globals next : Globals) : Prop where
  subscriber : globals.subscriber = none ∨ next.subscriber = globals.subscriber
  slot : next.slot = globals.slot
  flushed : next.flushed = globals.flushed

/-- A step without a mark. -/
theorem Orderly.plain (orderly : Orderly marks globals) (same : SameSlot globals next) :
    Orderly marks next := by
  refine ⟨orderly.one, orderly.installer, orderly.single, fun who tracer subscribed => ?_,
    ?_, ?_, ?_⟩
  · obtain ⟨format, isSubscriber⟩ := orderly.subscribed who tracer subscribed
    rcases same.subscriber with isNone | same
    · cases isNone.symm.trans isSubscriber
    · exact ⟨format, same.trans isSubscriber⟩
  · rw [same.slot, same.flushed]
    exact orderly.free
  · rw [same.slot, same.flushed]
    exact orderly.filled
  · rw [same.flushed]
    exact orderly.flushed

/-- While there is no subscriber, nobody has set one. -/
theorem Orderly.nobody (orderly : Orderly marks globals) (isFree : globals.subscriber = none)
    (name : Name) (tracer : Provider) : (name, .subscribed tracer) ∉ marks := by
  intro subscribed
  obtain ⟨_, isSubscriber⟩ := orderly.subscribed name tracer subscribed
  cases isFree.symm.trans isSubscriber

/-- The first to set the subscriber is the only one. -/
theorem Orderly.subscribe (orderly : Orderly marks globals) (name : Name) (tracer : Provider)
    (format : LogFormat) (isFree : globals.subscriber = none) :
    Orderly (marks ++ [(name, .subscribed tracer)])
      { globals with subscriber := some (.registry tracer format) } := by
  have nobody := orderly.nobody isFree
  have isLast : ∀ who other, (who, .subscribed other) ∈ marks ++ [(name, .subscribed tracer)] →
      who = name ∧ other = tracer := by
    intro who other member
    rcases List.mem_append.mp member with earlier | last
    · exact absurd earlier (nobody who other)
    · cases List.mem_singleton.mp last
      exact ⟨rfl, rfl⟩
  have notInstalled : ∀ who providers done, (who, .installed providers done) ∉ marks :=
    fun who providers done installed =>
      nobody who _ (orderly.installer who providers done installed).2
  obtain ⟨isSlot, isFlushed⟩ := orderly.free notInstalled
  have stillNot : ∀ who providers done,
      (who, .installed providers done) ∉ marks ++ [(name, .subscribed tracer)] := by
    intro who providers done installed
    rcases List.mem_append.mp installed with earlier | last
    · exact notInstalled who providers done earlier
    · cases List.mem_singleton.mp last
  refine ⟨fun first second _ _ isFirst isSecond => ?_,
    fun who providers done installed => absurd installed (stillNot who providers done),
    fun who _ providers _ done _ installed => absurd installed (stillNot who providers done),
    fun who other subscribed => ?_, fun _ => ⟨isSlot, isFlushed⟩, fun cell providers isFull => ?_,
    .inl isFlushed⟩
  · exact (isLast first _ isFirst).1.trans (isLast second _ isSecond).1.symm
  · obtain ⟨-, rfl⟩ := isLast who other subscribed
    exact ⟨format, rfl⟩
  · cases isSlot.symm.trans isFull

/-- While who has set the subscriber has not tried to fill the slot, nobody has. -/
theorem Orderly.notInstalled (orderly : Orderly marks globals)
    (subscribed : (name, .subscribed tracer) ∈ marks)
    (notYet : ∀ providers done, (name, .installed providers done) ∉ marks) (who : Name)
    (providers : InstalledProviders) (done : Bool) : (who, .installed providers done) ∉ marks := by
  intro installed
  have other := (orderly.installer who providers done installed).2
  obtain rfl : who = name := orderly.one who name _ _ other subscribed
  exact notYet providers done installed

/-- So it finds the slot free. -/
theorem Orderly.isFree (orderly : Orderly marks globals)
    (subscribed : (name, .subscribed tracer) ∈ marks)
    (notYet : ∀ providers done, (name, .installed providers done) ∉ marks) :
    globals.slot = none ∧ globals.flushed = [] :=
  orderly.free (orderly.notInstalled subscribed notYet)

/-- And fills it. -/
theorem Orderly.install (orderly : Orderly marks globals)
    (subscribed : (name, .subscribed providers.tracer) ∈ marks)
    (notYet : ∀ providers done, (name, .installed providers done) ∉ marks) :
    Orderly (marks ++ [(name, .installed providers true)])
      { globals with slot := some { providers := some providers } } := by
  obtain ⟨-, isEmpty⟩ := orderly.isFree subscribed notYet
  have installed :
      (name, .installed providers true) ∈ marks ++ [(name, .installed providers true)] :=
    List.mem_append_right _ List.mem_cons_self
  have sameSubscribed : ∀ who other,
      (who, .subscribed other) ∈ marks ++ [(name, .installed providers true)] →
        (who, .subscribed other) ∈ marks := by
    intro who other member
    rcases List.mem_append.mp member with earlier | last
    · exact earlier
    · cases List.mem_singleton.mp last
  have isLast : ∀ who others done,
      (who, .installed others done) ∈ marks ++ [(name, .installed providers true)] →
        others = providers := by
    intro who others done member
    rcases List.mem_append.mp member with earlier | last
    · exact absurd earlier (orderly.notInstalled subscribed notYet who others done)
    · cases List.mem_singleton.mp last
      rfl
  refine ⟨fun first second _ _ isFirst isSecond => ?_, fun who others done isInstalled => ?_,
    fun _ _ _ _ _ _ isFirst isSecond => (isLast _ _ _ isFirst).trans (isLast _ _ _ isSecond).symm,
    fun who other isSubscribed => ?_, fun notInstalled => ?_, fun cell others isSlot isFull => ?_,
    .inl isEmpty⟩
  · exact orderly.one first second _ _ (sameSubscribed _ _ isFirst) (sameSubscribed _ _ isSecond)
  · rcases List.mem_append.mp isInstalled with earlier | last
    · obtain ⟨isDone, isSubscribed⟩ := orderly.installer who others done earlier
      exact ⟨isDone, List.mem_append_left _ isSubscribed⟩
    · cases List.mem_singleton.mp last
      exact ⟨rfl, List.mem_append_left _ subscribed⟩
  · exact orderly.subscribed who other (sameSubscribed _ _ isSubscribed)
  · exact absurd installed (notInstalled name providers true)
  · cases isSlot
    cases isFull
    exact ⟨isEmpty, name, installed⟩

/-- `shutdown` flushes what the slot was filled with. -/
theorem Orderly.shutdown (orderly : Orderly marks globals) (panics : Bool) :
    Orderly marks (Otel.shutdown panics globals) := by
  unfold Otel.shutdown
  cases isSlot : globals.slot with
  | none => exact orderly
  | some cell =>
      obtain ⟨isProviders, poisoned⟩ := cell
      cases poisoned with
      | true => exact orderly
      | false =>
          cases isProviders with
          | none => exact orderly
          | some providers =>
              obtain ⟨isEmpty, who, installed⟩ := orderly.filled _ providers isSlot rfl
              have notFree : ¬ ∀ name providers done, (name, .installed providers done) ∉ marks :=
                fun none => none who providers true installed
              have isTaken : ∀ (poisoned : Bool) (cell : Slot) (others : InstalledProviders),
                  some { providers := none, poisoned } = some cell →
                    cell.providers ≠ some others := by
                rintro poisoned cell others isCell
                cases isCell
                exact nofun
              cases panics with
              | true =>
                  exact ⟨orderly.one, orderly.installer, orderly.single, orderly.subscribed,
                    fun none => absurd none notFree,
                    fun cell others isCell isFull =>
                      absurd isFull (isTaken true cell others isCell),
                    .inl isEmpty⟩
              | false =>
                  have isFlushed : globals.flushed ++ [providers.tracer, providers.meter] =
                      [providers.tracer, providers.meter] := by rw [isEmpty, List.nil_append]
                  exact ⟨orderly.one, orderly.installer, orderly.single, orderly.subscribed,
                    fun none => absurd none notFree,
                    fun cell others isCell isFull =>
                      absurd isFull (isTaken false cell others isCell),
                    .inr ⟨who, providers, installed, isFlushed⟩⟩

/-- A second subscriber is refused. -/
theorem setSubscriber_of_some {subscriber : Subscriber}
    (isSet : globals.subscriber = some subscriber)
    (other : Subscriber) : globalHandler globals (.setSubscriber other) = (false, globals) := by
  unfold globalHandler
  simp only [isSet]

/-- The first subscriber is set. -/
theorem setSubscriber_of_none (isFree : globals.subscriber = none) (subscriber : Subscriber) :
    globalHandler globals (.setSubscriber subscriber) =
      (true, { globals with subscriber := some subscriber }) := by
  unfold globalHandler
  simp only [isFree]

/-- Every step keeps the order. -/
def initializing : Protocol globalSignature Globals Name where
  Inv history globals := Orderly (marksOf history) globals
  Grows _ _ := True
  growsRefl _ := trivial
  growsTrans _ _ := trivial

/-- The marks of a thread are the same in both histories. -/
def SameMarks (name : Name) (history later : SharedHistory globalSignature Name) : Prop :=
  ∀ mark, (name, mark) ∈ marksOf later ↔ (name, mark) ∈ marksOf history

/-- Others leave a call's marks as they are. -/
theorem SameMarks.of_others (acted : Others name history later) : SameMarks name history later := by
  obtain ⟨others, rfl, elsewhere⟩ := acted
  intro mark
  rw [marksOf, List.filterMap_append, List.mem_append]
  refine ⟨fun member => member.resolve_right fun last => ?_, .inl⟩
  obtain ⟨answer, isOther, isMark⟩ := List.mem_filterMap.mp last
  obtain ⟨_, _, same⟩ := Option.map_eq_some_iff.mp isMark
  exact elsewhere answer isOther (congrArg Prod.fst same)

/-- A step that leaves no mark, and the subscriber, the slot and what was flushed. -/
structure IsPlain (operation : GlobalOp) : Prop where
  noMark : ∀ response, markOf ⟨operation, response⟩ = none
  keeps : ∀ globals, SameSlot globals (globalHandler globals operation).2

/-- A plain step tells its thread nothing about the others. -/
theorem IsPlain.steady {operation : GlobalOp} {since : Globals}
    {resume : globalSignature.Response operation → GlobalProgram (Result Unit)}
    {Post : Result Unit → SharedHistory globalSignature Name → Globals → Prop}
    (isPlain : IsPlain operation)
    (rest : ∀ response later here, SameMarks name history later →
      Steady globalHandler.world initializing name Post (resume response) later here) :
    Steady globalHandler.world initializing name Post (.request operation resume) history
      since := by
  intro later here response next acted _ orderly answer
  have isNext : (globalHandler here operation).2 = next := congrArg Prod.snd answer
  have sameMarks := marksOf_plain later name (isPlain.noMark response)
  refine ⟨trivial, ?_, rest response _ next fun mark => ?_⟩
  · change Orderly (marksOf _) next
    rw [sameMarks, ← isNext]
    exact orderly.plain (isPlain.keeps here)
  · rw [sameMarks]
    exact SameMarks.of_others acted mark

/-- Building a provider keeps the slot. -/
theorem buildProvider_keeps (config : Config) (exporterBuilt : Except String Unit)
    (resource : Resource) (globals : Globals) :
    SameSlot globals (buildProvider config exporterBuilt resource globals).2 := by
  rcases buildProvider_cases config exporterBuilt resource globals with
    ⟨_, _, _, isBuilt⟩ | ⟨_, _, _, isBuilt⟩
  · rw [isBuilt]
    exact ⟨.inr rfl, rfl, rfl⟩
  · rw [isBuilt]
    exact ⟨.inr rfl, rfl, rfl⟩

/-- Setting the logger leaves no mark. -/
theorem isPlain_setLogger : IsPlain .setLogger := by
  refine ⟨fun _ => rfl, fun globals => ?_⟩
  change SameSlot globals (if globals.hasLogger then (false, globals) else _ : Bool × Globals).2
  split
  · exact ⟨.inr rfl, rfl, rfl⟩
  · exact ⟨.inr rfl, rfl, rfl⟩

/-- Who returns `Ok` has set the subscriber. -/
def Initialized (name : Name) (value : Result Unit)
    (history : SharedHistory globalSignature Name) (_ : Globals) : Prop :=
  value = .ok () → ∃ tracer, (name, .subscribed tracer) ∈ marksOf history

/-- The end of `init`: who sets the subscriber fills the slot. -/
theorem subscribeAndInstall_steady {since : Globals} (meter : Provider)
    (notYet : ∀ providers done, (name, .installed providers done) ∉ marksOf history) :
    Steady globalHandler.world initializing name (Initialized name)
      (tryInitProgram (.registry tracer format) >>= fun isSet =>
        if isSet then do
          if ← Program.perform globalSignature (.install ⟨tracer, meter⟩) then
            return .ok ()
          else
            return .error .alreadyInitialized
        else
          return .error .alreadyInitialized)
      history since := by
  intro setting here isSet next acted _ orderly answer
  have unmarked := SameMarks.of_others acted
  cases isSubscriber : here.subscriber with
  | some subscriber =>
      cases (setSubscriber_of_some isSubscriber _).symm.trans answer
      refine ⟨trivial, ?_, nofun⟩
      change Orderly (marksOf _) here
      rwa [marksOf_plain setting name rfl]
  | none =>
      cases (setSubscriber_of_none isSubscriber _).symm.trans answer
      have marked := marksOf_append setting name
        ⟨.setSubscriber (.registry tracer format), true⟩ rfl
      refine ⟨trivial, ?_, ?_⟩
      · change Orderly (marksOf _) _
        rw [marked]
        exact orderly.subscribe name tracer format isSubscriber
      apply isPlain_setLogger.steady
      intro isLogger logged _ sameMarks
      have isMine : (name, .subscribed tracer) ∈ marksOf logged :=
        (sameMarks _).mpr (marked ▸ List.mem_append_right _ List.mem_cons_self)
      have stillNot : ∀ providers done, (name, .installed providers done) ∉ marksOf logged := by
        intro providers done installed
        have before := (sameMarks _).mp installed
        rw [marked] at before
        rcases List.mem_append.mp before with earlier | last
        · exact notYet providers done ((unmarked _).mp earlier)
        · cases List.mem_singleton.mp last
      cases isLogger with
      | false => exact nofun
      | true =>
          intro installing here done next acted _ orderly answer
          have mine := SameMarks.of_others acted
          have isMineNow := (mine _).mpr isMine
          have notYetNow : ∀ providers done,
              (name, .installed providers done) ∉ marksOf installing :=
            fun providers done installed => stillNot providers done ((mine _).mp installed)
          obtain ⟨isFree, -⟩ := orderly.isFree isMineNow notYetNow
          cases (install_of_none ⟨tracer, meter⟩ isFree).symm.trans answer
          have filled := marksOf_append installing name
            ⟨.install ⟨tracer, meter⟩, true⟩ rfl
          refine ⟨trivial, ?_, fun _ => ⟨tracer, ?_⟩⟩
          · change Orderly (marksOf _) _
            rw [filled]
            exact orderly.install isMineNow notYetNow
          · rw [filled]
            exact List.mem_append_left _ isMineNow

/-- A call of `init` keeps what is promised, against all others. -/
theorem initProgram_steady {since : Globals} (config : Config)
    (spanExporter metricExporter : Except String Unit)
    (notYet : ∀ providers done, (name, .installed providers done) ∉ marksOf history) :
    Steady globalHandler.world initializing name (Initialized name)
      (initProgram config spanExporter metricExporter) history since := by
  apply IsPlain.steady ⟨fun _ => rfl, fun _ => ⟨.inr rfl, rfl, rfl⟩⟩
  intro _ propagated _ afterPropagator
  apply IsPlain.steady ⟨fun _ => rfl, fun _ => buildProvider_keeps ..⟩
  intro tracerBuilt built _ afterTracer
  cases tracerBuilt with
  | error e => exact nofun
  | ok tracer =>
      apply IsPlain.steady ⟨fun _ => rfl, fun _ => buildProvider_keeps ..⟩
      intro meterBuilt bothBuilt _ afterMeter
      cases meterBuilt with
      | error e => exact nofun
      | ok meter =>
          apply IsPlain.steady ⟨fun _ => rfl, fun _ => ⟨.inr rfl, rfl, rfl⟩⟩
          intro _ tracerSet _ afterTracerSet
          apply IsPlain.steady ⟨fun _ => rfl, fun _ => ⟨.inr rfl, rfl, rfl⟩⟩
          intro _ meterSet _ afterMeterSet
          apply subscribeAndInstall_steady meter
          intro providers done installed
          apply notYet providers done
          exact (afterPropagator _).mp <| (afterTracer _).mp <| (afterMeter _).mp <|
            (afterTracerSet _).mp <| (afterMeterSet _).mp installed

/-- What a call promises: an `init` that returns `Ok` has set the subscriber. -/
def Call.Promises (call : Call) (name : Name) (value : Result Unit)
    (history : SharedHistory globalSignature Name) (globals : Globals) : Prop :=
  ∀ config spanExporter metricExporter, call = .init config spanExporter metricExporter →
    Initialized name value history globals

/-- What a call promises stays true. -/
theorem Call.promises_isStable (call : Call) (name : Name) :
    initializing.IsStable name (call.Promises name) := by
  intro value history _ later _ acted _ promised config spanExporter metricExporter isInit isOk
  obtain ⟨tracer, subscribed⟩ := promised config spanExporter metricExporter isInit isOk
  exact ⟨tracer, (SameMarks.of_others acted _).mpr subscribed⟩

/-- Every call, from the start of its thread. -/
theorem Call.program_steady {since : Globals} (call : Call) (name : Name) :
    Steady globalHandler.world initializing name (call.Promises name) call.program [] since := by
  cases call with
  | init config spanExporter metricExporter =>
      have unmarked : ∀ tracer subscribed, (name, Mark.installed tracer subscribed) ∉
          marksOf ([] : SharedHistory globalSignature Name) := fun _ _ => List.not_mem_nil
      refine (initProgram_steady config spanExporter metricExporter unmarked).mono ?_
      exact fun _ _ _ initialized _ _ _ _ => initialized
  | shutdown panics =>
      intro later here response next _ _ orderly answer
      obtain rfl : Otel.shutdown panics here = next := congrArg Prod.snd answer
      refine ⟨trivial, ?_, fun _ _ _ => nofun⟩
      change Orderly (marksOf _) _
      rw [marksOf_plain later name rfl]
      exact orderly.shutdown panics
  | setSubscriber =>
      intro later here response next _ _ orderly answer
      refine ⟨trivial, ?_, fun _ _ _ => nofun⟩
      change Orderly (marksOf _) next
      rw [marksOf_plain later name (by cases response <;> rfl)]
      cases isSubscriber : here.subscriber with
      | some subscriber =>
          cases (setSubscriber_of_some isSubscriber _).symm.trans answer
          exact orderly
      | none =>
          cases (setSubscriber_of_none isSubscriber _).symm.trans answer
          exact orderly.plain ⟨.inl isSubscriber, rfl, rfl⟩
  | setLogger =>
      exact isPlain_setLogger.steady fun _ _ _ _ _ _ _ => nofun

/-- In every interleaving one `init` at most has returned `Ok`, none has found the slot taken,
one pair of providers at most was put into it, the slot has that pair, to whose tracer provider
the subscriber writes, and `shutdown` has flushed nothing or exactly that pair. -/
structure InitializesOnce (call : Name → Call)
    (pool : Pool globalSignature Globals Name (Result Unit)) : Prop where
  one : ∀ name other config otherConfig spans otherSpans metrics otherMetrics,
    call name = .init config spans metrics →
    call other = .init otherConfig otherSpans otherMetrics →
      pool.program name = .done (.ok ()) → pool.program other = .done (.ok ()) → name = other
  installs : ∀ name providers done,
    (name, ⟨.install providers, done⟩) ∈ pool.history → done = true
  single : ∀ name other providers others, (name, ⟨.install providers, true⟩) ∈ pool.history →
    (other, ⟨.install others, true⟩) ∈ pool.history → providers = others
  writesTo : ∀ cell providers, pool.state.slot = some cell → cell.providers = some providers →
    ∃ name format, (name, ⟨.install providers, true⟩) ∈ pool.history ∧
      pool.state.subscriber = some (.registry providers.tracer format)
  flushes : pool.state.flushed = [] ∨ ∃ name providers format,
    (name, ⟨.install providers, true⟩) ∈ pool.history ∧
      pool.state.flushed = [providers.tracer, providers.meter] ∧
      pool.state.subscriber = some (.registry providers.tracer format)

/-- Calls from any number of threads, step by step in any interleaving: the process is
initialized once. -/
theorem calls_initializeOnce [DecidableEq Name] (call : Name → Call)
    {pool : Pool globalSignature Globals Name (Result Unit)}
    (steps : Pool.Steps globalHandler.world (.start {} fun name => (call name).program) pool) :
    InitializesOnce call pool := by
  have start : Pool.IsSteady globalHandler.world initializing
      (fun name => (call name).Promises name)
      (.start {} fun name => (call name).program) :=
    ⟨.start, fun name => (call name).program_steady name⟩
  have isSteady := start.steps (fun name => (call name).promises_isStable name) steps
  have orderly : Orderly (marksOf pool.history) pool.state := isSteady.inv
  have writesTo : ∀ name providers, (name, .installed providers true) ∈ marksOf pool.history →
      ∃ format, pool.state.subscriber = some (.registry providers.tracer format) :=
    fun name providers installed =>
      orderly.subscribed name _ (orderly.installer name providers true installed).2
  have marked : ∀ name providers done, (name, ⟨.install providers, done⟩) ∈ pool.history →
      (name, .installed providers done) ∈ marksOf pool.history :=
    fun name providers done installed => List.mem_filterMap.mpr ⟨_, installed, rfl⟩
  refine ⟨?_, fun name providers done installed => ?_,
    fun name other providers others first second =>
    ?_, fun cell providers isSlot isFull => ?_, ?_⟩
  · intro name other config otherConfig spans otherSpans metrics otherMetrics isInit isOther done
      otherDone
    obtain ⟨tracer, subscribed⟩ := isSteady.returned done config spans metrics isInit rfl
    obtain ⟨meter, otherSubscribed⟩ :=
      isSteady.returned otherDone otherConfig otherSpans otherMetrics isOther rfl
    exact orderly.one name other tracer meter subscribed otherSubscribed
  · exact (orderly.installer name providers done (marked _ _ _ installed)).1
  · exact orderly.single name other _ _ _ _ (marked _ _ _ first) (marked _ _ _ second)
  · obtain ⟨-, name, installed⟩ := orderly.filled cell providers isSlot isFull
    obtain ⟨format, isSubscriber⟩ := writesTo name providers installed
    exact ⟨name, format, install_of_mark installed, isSubscriber⟩
  · rcases orderly.flushed with isEmpty | ⟨name, providers, installed, isFlushed⟩
    · exact .inl isEmpty
    · obtain ⟨format, isSubscriber⟩ := writesTo name providers installed
      exact .inr ⟨name, providers, format, install_of_mark installed, isFlushed, isSubscriber⟩

/-- Two threads initialize. The second makes its providers the global ones after the first has,
and the first sets the subscriber: it returns `Ok`, and the other's providers stay. -/
theorem calls_initializeOnce_race :
    ∃ pool : Pool globalSignature Globals Bool (Result Unit),
      InitializesOnce (fun _ => .init silentConfig (.ok ()) (.ok ())) pool ∧
      pool.program true = .done (.ok ()) ∧
      pool.program false = .done (.error .alreadyInitialized) ∧
      pool.state.tracerProvider.map Provider.number = some 2 := by
  let call : Bool → Call := fun _ => .init silentConfig (.ok ()) (.ok ())
  have steps : Pool.Steps globalHandler.world (.start {} fun name => (call name).program) _ :=
    (((Pool.steps_of_reaches true (.step rfl (.step rfl (.step rfl (.step rfl (.step rfl
      .refl)))))).trans
    (Pool.steps_of_reaches false (.step rfl (.step rfl (.step rfl (.step rfl (.step rfl
      .refl))))))).trans
    (Pool.steps_of_reaches true (.step rfl (.step rfl (.step rfl .refl))))).trans
    (Pool.steps_of_reaches false (.step rfl .refl))
  exact ⟨_, calls_initializeOnce call steps, rfl, rfl, rfl⟩

end AltairRs.Otel
