import AltairRs.Otel.Init
import AltairRs.Run.Visits

/-!
# What a failed initialization leaves

`init` makes its providers the global ones before it knows that they will stay: a subscriber
that is there already, its own or another, fails it too late. In any run of a process the
failures are without effect, and the slot holds the global providers, exactly if every
`init` fails at its exporters or meets neither a subscriber nor a logger.
-/

namespace AltairRs.Otel

open Run

/-- What happens in a process: the two calls, and somebody else who sets a subscriber or a
logger, if there is none yet. -/
inductive Call where
  | init (config : Config) (spanExporter metricExporter : Except String Unit)
  | shutdown (panics : Bool)
  | setSubscriber
  | setLogger

/-- A call, and what it returned. -/
structure Called where
  call : Call
  result : Result Unit

/-- The effect of a call. -/
def Call.perform (call : Call) (globals : Globals) : Result Unit × Globals :=
  match call with
  | .init config spanExporter metricExporter => Otel.init config spanExporter metricExporter globals
  | .shutdown panics => (.ok (), Otel.shutdown panics globals)
  | .setSubscriber =>
      (.ok (), { globals with subscriber := globals.subscriber.or (some .foreign) })
  | .setLogger => (.ok (), { globals with hasLogger := true })

/-- A step of a process. -/
def Performs (globals : Globals) (called : Called) (next : Globals) : Prop :=
  called.call.perform globals = (called.result, next)

/-- The providers in the slot are the global ones. -/
def Globals.IsLive (globals : Globals) : Prop :=
  ∀ cell providers, globals.slot = some cell → cell.providers = some providers →
    globals.tracerProvider = some providers.tracer ∧ globals.meterProvider = some providers.meter

/-- The global providers and the slot are the same. -/
structure SameProviders (globals next : Globals) : Prop where
  tracer : next.tracerProvider = globals.tracerProvider
  meter : next.meterProvider = globals.meterProvider
  slot : next.slot = globals.slot

/-- A run of a process. -/
abbrev Process := List (Visit Globals Called)

/-- A failed `init` leaves the providers and the slot, the slot holds the global providers,
and so it is these that `shutdown` flushes. -/
structure IsAtomic (process : Process) : Prop where
  failed : ∀ visit ∈ process, ∀ config spanExporter metricExporter e,
    visit.label = ⟨.init config spanExporter metricExporter, .error e⟩ →
      SameProviders visit.before visit.after
  live : ∀ visit ∈ process, visit.after.IsLive
  flushes : ∀ visit ∈ process, visit.label.call = .shutdown false →
    ∀ providers, visit.before.slot = some { providers := some providers } →
      visit.after.flushed = visit.before.flushed ++ [providers.tracer, providers.meter] ∧
        visit.before.tracerProvider = some providers.tracer ∧
        visit.before.meterProvider = some providers.meter

/-- An `init` fails at its exporters, or meets neither a subscriber nor a logger. -/
def Call.IsClear (globals : Globals) (call : Call) : Prop :=
  ∀ config spanExporter metricExporter, call = .init config spanExporter metricExporter →
    config.ExporterFails spanExporter metricExporter ∨
      globals.subscriber = none ∧ globals.hasLogger = false

/-- A global provider has been built, and whoever has filled the slot has subscribed. -/
structure Globals.IsSound (globals : Globals) : Prop where
  number : ∀ tracer, globals.tracerProvider = some tracer → tracer.number < globals.built
  subscribed : globals.subscriber = none → globals.slot = none

/-- How `init` ends: it fails at an exporter, or at the subscriber or the logger once its
providers are the global ones, or it is done. -/
inductive Initializes (config : Config) (spanExporter metricExporter : Except String Unit)
    (globals : Globals) : Result Unit → Globals → Prop where
  | exporter {e built} (fails : config.ExporterFails spanExporter metricExporter)
      (grows : globals.built ≤ built) :
      Initializes config spanExporter metricExporter globals (.error e)
        { globals with hasPropagator := true, built }
  | late {tracer meter subscriber}
      (works : ¬ config.ExporterFails spanExporter metricExporter)
      (isNew : tracer.number = globals.built)
      (met : ¬ (globals.subscriber = none ∧ globals.hasLogger = false)) :
      Initializes config spanExporter metricExporter globals (.error .alreadyInitialized)
        { globals with
          hasPropagator := true
          built := globals.built + 2
          tracerProvider := some tracer
          meterProvider := some meter
          subscriber := some subscriber }
  | done {tracer meter subscriber}
      (works : ¬ config.ExporterFails spanExporter metricExporter)
      (isNew : tracer.number = globals.built)
      (clear : globals.subscriber = none ∧ globals.hasLogger = false) :
      Initializes config spanExporter metricExporter globals (.ok ())
        { globals with
          hasPropagator := true
          built := globals.built + 2
          tracerProvider := some tracer
          meterProvider := some meter
          subscriber := some subscriber
          hasLogger := true
          slot := some { providers := some ⟨tracer, meter⟩ } }

variable {config : Config} {spanExporter metricExporter : Except String Unit}
  {globals next : Globals}

/-- A provider is new, unless its exporter fails. -/
theorem buildProvider_cases (config : Config) (exporterBuilt : Except String Unit)
    (resource : Resource) (globals : Globals) :
    (∃ e, config.exporter = .otlp ∧ exporterBuilt = .error e ∧
      buildProvider config exporterBuilt resource globals = (.error (.exporter e), globals)) ∨
    (¬ (config.exporter = .otlp ∧ ∃ e, exporterBuilt = .error e) ∧
      ∃ provider : Provider, provider.number = globals.built ∧
        buildProvider config exporterBuilt resource globals =
          (.ok provider, { globals with built := globals.built + 1 })) := by
  unfold buildProvider
  cases config.exporter with
  | otlp =>
      cases exporterBuilt with
      | error e => exact .inl ⟨e, rfl, rfl, rfl⟩
      | ok _ => exact .inr ⟨fun fails => (nomatch fails.2), _, rfl, rfl⟩
  | stdout => exact .inr ⟨fun fails => (nomatch fails.1), _, rfl, rfl⟩
  | none => exact .inr ⟨fun fails => (nomatch fails.1), _, rfl, rfl⟩

/-- The slot is free for whoever has set the subscriber. -/
theorem install_of_none (providers : InstalledProviders) (isFree : globals.slot = none) :
    install providers globals =
      (true, { globals with slot := some { providers := some providers } }) := by
  unfold install
  rw [isFree]
  rfl

/-- The three ends of `init`. -/
theorem init_cases (sound : globals.IsSound) :
    Initializes config spanExporter metricExporter globals
      (init config spanExporter metricExporter globals).1
      (init config spanExporter metricExporter globals).2 := by
  unfold init buildTracerProvider buildMeterProvider
  rcases buildProvider_cases config spanExporter (buildResource config)
    { globals with hasPropagator := true } with
    ⟨e, isOtlp, isError, isBuilt⟩ | ⟨spanWorks, tracer, isNew, isBuilt⟩
  · simp only [isBuilt]
    exact .exporter ⟨isOtlp, .inl ⟨e, isError⟩⟩ (Nat.le_refl _)
  rcases buildProvider_cases config metricExporter (buildResource config)
    { globals with hasPropagator := true, built := globals.built + 1 } with
    ⟨e, isOtlp, isError, isMeter⟩ | ⟨metricWorks, meter, _, isMeter⟩
  · simp only [isBuilt, isMeter]
    exact .exporter ⟨isOtlp, .inr ⟨e, isError⟩⟩ (Nat.le_succ _)
  have works : ¬ config.ExporterFails spanExporter metricExporter := by
    rintro ⟨isOtlp, isSpan | isMetric⟩
    · exact spanWorks ⟨isOtlp, isSpan⟩
    · exact metricWorks ⟨isOtlp, isMetric⟩
  have isNumber : tracer.number = globals.built := isNew
  simp only [isBuilt, isMeter, tryInit]
  cases isSubscriber : globals.subscriber with
  | some subscriber =>
      exact .late works isNumber fun clear => nomatch isSubscriber.symm.trans clear.1
  | none =>
      simp only
      by_cases isLogger : globals.hasLogger = true
      · rw [if_pos isLogger]
        exact .late works isNumber fun clear => nomatch isLogger.symm.trans clear.2
      · rw [if_neg isLogger]
        simp only
        rw [install_of_none]
        · exact .done works isNumber ⟨isSubscriber, Bool.not_eq_true _ ▸ isLogger⟩
        · exact sound.subscribed isSubscriber

/-- `shutdown` empties the slot, or does nothing. -/
theorem shutdown_cases (panics : Bool) (globals : Globals) :
    shutdown panics globals = globals ∨
      ∃ poisoned flushed, globals.slot.isSome ∧
        shutdown panics globals = { globals with slot := some ⟨none, poisoned⟩, flushed } := by
  unfold shutdown
  cases globals.slot with
  | none => exact .inl rfl
  | some cell =>
      obtain ⟨providers, poisoned⟩ := cell
      cases poisoned with
      | true => exact .inl rfl
      | false =>
          cases providers with
          | none => exact .inl rfl
          | some providers =>
              cases panics with
              | true => exact .inr ⟨true, _, rfl, rfl⟩
              | false => exact .inr ⟨false, _, rfl, rfl⟩

/-- It flushes what is in the slot. -/
theorem shutdown_flushes {providers : InstalledProviders}
    (isFull : globals.slot = some { providers := some providers }) :
    (shutdown false globals).flushed = globals.flushed ++ [providers.tracer, providers.meter] := by
  unfold shutdown
  rw [isFull]
  rfl

/-- The process has just started. -/
theorem isSound_start : Globals.IsSound {} := ⟨nofun, fun _ => rfl⟩

/-- The process starts with live globals. -/
theorem isLive_start : Globals.IsLive {} := by
  intro cell providers isSlot
  cases isSlot

/-- A call of `init` ends in one of its ways. -/
theorem Performs.initializes {result : Result Unit}
    (performs : Performs globals ⟨.init config spanExporter metricExporter, result⟩ next)
    (sound : globals.IsSound) :
    Initializes config spanExporter metricExporter globals result next := by
  have isInit : init config spanExporter metricExporter globals = (result, next) := performs
  have ends : Initializes config spanExporter metricExporter globals
      (init config spanExporter metricExporter globals).1
      (init config spanExporter metricExporter globals).2 := init_cases sound
  rwa [isInit] at ends

/-- Every call keeps the globals sound. -/
theorem Performs.isSound {called : Called} (performs : Performs globals called next)
    (sound : globals.IsSound) : next.IsSound := by
  obtain ⟨call, result⟩ := called
  cases call with
  | init config spanExporter metricExporter =>
      cases performs.initializes sound with
      | exporter _ grows =>
          exact ⟨fun tracer isTracer => Nat.lt_of_lt_of_le (sound.number tracer isTracer) grows,
            sound.subscribed⟩
      | late _ isNew _ | done _ isNew _ =>
          refine ⟨fun tracer isTracer => ?_, nofun⟩
          cases isTracer
          simp only
          omega
  | shutdown panics =>
      cases performs
      rcases shutdown_cases panics globals with same | ⟨poisoned, flushed, isFull, isNext⟩
      · rwa [same]
      · rw [isNext]
        refine ⟨sound.number, fun isNone => ?_⟩
        rw [sound.subscribed isNone] at isFull
        cases isFull
  | setSubscriber =>
      cases performs
      refine ⟨sound.number, fun isNone => ?_⟩
      cases isSubscriber : globals.subscriber with
      | none => exact sound.subscribed isSubscriber
      | some subscriber =>
          rw [isSubscriber] at isNone
          cases isNone
  | setLogger =>
      cases performs
      exact ⟨sound.number, sound.subscribed⟩

/-- A call keeps the global providers in the slot, if it is clear. -/
theorem Performs.isLive {called : Called} (performs : Performs globals called next)
    (isClear : called.call.IsClear globals) (sound : globals.IsSound) (live : globals.IsLive) :
    next.IsLive := by
  obtain ⟨call, result⟩ := called
  cases call with
  | init config spanExporter metricExporter =>
      have clear := isClear config spanExporter metricExporter rfl
      cases performs.initializes sound with
      | exporter => exact live
      | late works _ met => exact absurd (clear.resolve_left works) met
      | done =>
          rintro cell providers isSlot isProviders
          cases isSlot
          cases isProviders
          exact ⟨rfl, rfl⟩
  | shutdown panics =>
      cases performs
      rcases shutdown_cases panics globals with same | ⟨poisoned, flushed, _, isNext⟩
      · rwa [same]
      · rw [isNext]
        rintro cell providers isSlot isProviders
        cases isSlot
        cases isProviders
  | setSubscriber | setLogger =>
      cases performs
      exact live

/-- A clear `init` that fails has failed at an exporter. -/
theorem Performs.sameProviders {e : Error}
    (performs : Performs globals ⟨.init config spanExporter metricExporter, .error e⟩ next)
    (isClear : (Call.init config spanExporter metricExporter).IsClear globals)
    (sound : globals.IsSound) : SameProviders globals next := by
  have clear := isClear config spanExporter metricExporter rfl
  cases performs.initializes sound with
  | exporter => exact ⟨rfl, rfl, rfl⟩
  | late works _ met => exact absurd (clear.resolve_left works) met

/-- One that leaves the global tracer provider is clear. -/
theorem Performs.isClear {result : Result Unit}
    (performs : Performs globals ⟨.init config spanExporter metricExporter, result⟩ next)
    (sound : globals.IsSound)
    (atomic : ∀ e, result = .error e → next.tracerProvider = globals.tracerProvider) :
    config.ExporterFails spanExporter metricExporter ∨
      globals.subscriber = none ∧ globals.hasLogger = false := by
  cases performs.initializes sound with
  | exporter fails => exact .inl fails
  | late _ isNew _ =>
      -- The tracer provider that is global now has only just been built.
      have isOld := sound.number _ (atomic _ rfl).symm
      exact absurd isNew (Nat.ne_of_lt isOld)
  | done _ _ clear => exact .inr clear

/-- In any process `init` is atomic exactly if every `init` fails at its exporters, or
meets neither a subscriber nor a logger. -/
theorem isAtomic_iff {process : Process} {final : Globals}
    (run : Visits Performs {} process final) :
    IsAtomic process ↔ ∀ visit ∈ process, visit.label.call.IsClear visit.before := by
  have keepsSound (visit : Visit Globals Called) (_ : True)
      (performs : Performs visit.before visit.label visit.after) (sound : visit.before.IsSound) :
      visit.after.IsSound :=
    performs.isSound sound
  have sounds := run.preserves_at Globals.IsSound keepsSound (fun _ _ => trivial) isSound_start
  constructor
  · intro atomic visit member config spanExporter metricExporter isInit
    have performs := run.step_of_mem member
    have sound := (sounds visit member).1
    have failed := atomic.failed visit member config spanExporter metricExporter
    obtain ⟨before, ⟨call, result⟩, after⟩ := visit
    obtain rfl : call = .init config spanExporter metricExporter := isInit
    refine performs.isClear sound fun e isError => ?_
    subst isError
    exact (failed e rfl).tracer
  · intro allClear
    have keepsLive (visit : Visit Globals Called)
        (isClear : visit.label.call.IsClear visit.before)
        (performs : Performs visit.before visit.label visit.after)
        (holds : visit.before.IsSound ∧ visit.before.IsLive) :
        visit.after.IsSound ∧ visit.after.IsLive :=
      ⟨performs.isSound holds.1, performs.isLive isClear holds.1 holds.2⟩
    have lives := run.preserves_at (fun globals => globals.IsSound ∧ globals.IsLive) keepsLive
      allClear ⟨isSound_start, isLive_start⟩
    refine ⟨fun visit member config spanExporter metricExporter e isLabel => ?_,
      fun visit member => (lives visit member).2.2,
      fun visit member isShutdown providers isFull => ?_⟩
    · have performs := run.step_of_mem member
      have isClear := allClear visit member
      rw [isLabel] at performs isClear
      exact performs.sameProviders isClear (sounds visit member).1
    · have performs := run.step_of_mem member
      have isLive := (lives visit member).1.2 _ providers isFull rfl
      obtain ⟨before, ⟨call, result⟩, after⟩ := visit
      obtain rfl : call = .shutdown false := isShutdown
      obtain rfl : shutdown false before = after := congrArg Prod.snd performs
      exact ⟨shutdown_flushes isFull, isLive⟩

/-- Telemetry of a service, to nowhere. -/
def silentConfig : Config where
  serviceName := "payments-api"
  exporter := .none

/-- A process that sets telemetry up and shuts it down. -/
def plainProcess : Process :=
  let call := Call.init silentConfig (.ok ()) (.ok ())
  let started := (call.perform {}).2
  [⟨{}, ⟨call, .ok ()⟩, started⟩, ⟨started, ⟨.shutdown false, .ok ()⟩, shutdown false started⟩]

/-- A process that only initializes is atomic if its calls find the globals clear. -/
theorem isAtomic_iff_plain :
    IsAtomic plainProcess ↔
      ∀ visit ∈ plainProcess, visit.label.call.IsClear visit.before :=
  isAtomic_iff (.cons rfl (.cons rfl .nil))

/-- Somebody else has set a subscriber: `init` fails, and its providers are the global ones. -/
theorem foreignSubscriber_notAtomic :
    ¬ ∀ (process : Process) (final : Globals), Visits Performs {} process final →
      IsAtomic process := by
  intro always
  let subscribed : Globals := { subscriber := some .foreign }
  let call := Call.init silentConfig (.ok ()) (.ok ())
  have run : Visits Performs {}
      [⟨{}, ⟨.setSubscriber, .ok ()⟩, subscribed⟩,
        ⟨subscribed, ⟨call, .error .alreadyInitialized⟩, (call.perform subscribed).2⟩]
      (call.perform subscribed).2 :=
    .cons rfl (.cons rfl .nil)
  have same := (always _ _ run).failed _ (List.mem_cons_of_mem _ List.mem_cons_self) _ _ _ _ rfl
  cases same.tracer

end AltairRs.Otel
