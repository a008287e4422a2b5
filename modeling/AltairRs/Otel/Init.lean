/-!
# Setting telemetry up

`init` writes to what is global to the process: the propagator, the two providers, the
tracing subscriber and last the slot from which `shutdown` takes what it flushes. Two of its
steps may fail, and nothing written before is taken back.
-/

namespace AltairRs.Otel

/-- How data is exported. -/
inductive Exporter where
  | otlp
  | stdout
  | none
deriving DecidableEq, Repr

/-- The format of the log on stdout. -/
inductive LogFormat where
  | pretty
  | json
deriving DecidableEq, Repr

structure Config where
  serviceName : String
  serviceVersion : Option String := none
  otlpEndpoint : Option String := none
  resourceAttributes : List (String × String) := []
  exporter : Exporter := .otlp
  logFormat : LogFormat := .pretty
deriving DecidableEq, Repr

/-- The errors of `init`. -/
inductive Error where
  | exporter (message : String)
  | alreadyInitialized
deriving DecidableEq, Repr

/-- The crate's result alias. -/
abbrev Result (α : Type) := Except Error α

abbrev Resource := List (String × String)

/-- A tracer or meter provider; no two have the same number. -/
structure Provider where
  number : Nat
  resource : Resource
  exporter : Exporter
  endpoint : Option String
deriving DecidableEq, Repr

structure InstalledProviders where
  tracer : Provider
  meter : Provider
deriving DecidableEq, Repr

/-- The subscriber of the process: `init` has set it, or somebody else. -/
inductive Subscriber where
  | foreign
  | registry (tracer : Provider) (format : LogFormat)
deriving DecidableEq, Repr

/-- What the cell of `PROVIDERS` holds once it has been made: a value behind a lock. -/
structure Slot where
  providers : Option InstalledProviders := none
  poisoned : Bool := false
deriving DecidableEq, Repr

/-- What is global to the process. -/
structure Globals where
  hasPropagator : Bool := false
  tracerProvider : Option Provider := none
  meterProvider : Option Provider := none
  subscriber : Option Subscriber := none
  -- The logger of the `log` crate, which a subscriber sets too.
  hasLogger : Bool := false
  slot : Option Slot := none
  built : Nat := 0
  flushed : List Provider := []
deriving DecidableEq, Repr

/-- `build_resource`. -/
def buildResource (config : Config) : Resource :=
  ("service.name", config.serviceName) ::
    ((config.serviceVersion.map ("service.version", ·)).toList ++ config.resourceAttributes)

/-- Only an OTLP exporter may fail to be built. -/
def buildProvider (config : Config) (exporterBuilt : Except String Unit) (resource : Resource)
    (globals : Globals) : Result Provider × Globals :=
  let next := { globals with built := globals.built + 1 }
  match config.exporter with
  | .otlp =>
      match exporterBuilt with
      | .error e => (.error (.exporter e), globals)
      | .ok () => (.ok ⟨globals.built, resource, .otlp, config.otlpEndpoint⟩, next)
  | .stdout => (.ok ⟨globals.built, resource, .stdout, none⟩, next)
  | .none => (.ok ⟨globals.built, resource, .none, none⟩, next)

/-- `build_tracer_provider`. -/
def buildTracerProvider (config : Config) (spanExporter : Except String Unit) :
    Resource → Globals → Result Provider × Globals :=
  buildProvider config spanExporter

/-- `build_meter_provider`. -/
def buildMeterProvider (config : Config) (metricExporter : Except String Unit) :
    Resource → Globals → Result Provider × Globals :=
  buildProvider config metricExporter

/-- `try_init` of a registry: the subscriber is set, and then the logger. -/
def tryInit (tracer : Provider) (format : LogFormat) (globals : Globals) : Bool × Globals :=
  match globals.subscriber with
  | some _ => (false, globals)
  | none =>
      let globals := { globals with subscriber := some (.registry tracer format) }
      if globals.hasLogger then
        (false, globals)
      else
        (true, { globals with hasLogger := true })

/-- `install`. -/
def install (providers : InstalledProviders) (globals : Globals) : Bool × Globals :=
  let cell := globals.slot.getD {}
  let globals := { globals with slot := some cell }
  if cell.poisoned then
    (false, globals)
  else if cell.providers.isSome then
    (false, globals)
  else
    (true, { globals with slot := some { cell with providers := some providers } })

/-- `init`, given whether the exporters can be built. -/
def init (config : Config) (spanExporter metricExporter : Except String Unit) (globals : Globals) :
    Result Unit × Globals :=
  let globals := { globals with hasPropagator := true }
  let resource := buildResource config
  match buildTracerProvider config spanExporter resource globals with
  | (.error e, globals) => (.error e, globals)
  | (.ok tracerProvider, globals) =>
      match buildMeterProvider config metricExporter resource globals with
      | (.error e, globals) => (.error e, globals)
      | (.ok meterProvider, globals) =>
          let globals := { globals with
            tracerProvider := some tracerProvider
            meterProvider := some meterProvider }
          match tryInit tracerProvider config.logFormat globals with
          | (false, globals) => (.error .alreadyInitialized, globals)
          | (true, globals) =>
              match install ⟨tracerProvider, meterProvider⟩ globals with
              | (false, globals) => (.error .alreadyInitialized, globals)
              | (true, globals) => (.ok (), globals)

/-- `shutdown`, given whether the tracer provider panics in it, which poisons the lock. -/
def shutdown (panics : Bool) (globals : Globals) : Globals :=
  match globals.slot with
  | none => globals
  | some cell =>
      if cell.poisoned then
        globals
      else
        match cell.providers with
        | none => globals
        | some providers =>
            let globals := { globals with slot := some { providers := none, poisoned := panics } }
            if panics then
              globals
            else
              { globals with flushed := globals.flushed ++ [providers.tracer, providers.meter] }

/-- An exporter that `init` needs cannot be built. -/
def Config.ExporterFails (config : Config) (spanExporter metricExporter : Except String Unit) :
    Prop :=
  config.exporter = .otlp ∧ ((∃ e, spanExporter = .error e) ∨ ∃ e, metricExporter = .error e)

end AltairRs.Otel
