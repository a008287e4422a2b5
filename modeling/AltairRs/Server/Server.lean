/-!
# The server

`run_with_shutdown` polls a graceful server, inside a timeout if one was set. The
clock counts nanoseconds from the first poll; each reading of it may resolve the
shutdown future and bring requests. A run is one step for each reading.
-/

namespace AltairRs

/-- `Duration`, in nanoseconds. -/
abbrev Server.Duration := Nat

/-- `Server`, as far as serving goes. -/
structure Server where
  shutdownTimeout : Option Server.Duration
deriving DecidableEq, Repr

namespace Server

/-- `altair_server::Error`, as far as serving goes. -/
inductive Error (IoError : Type) where
  | io (source : IoError)
  | shutdownTimeout (d : Duration)
deriving DecidableEq, Repr

/-- `ServerBuilder`, as far as serving goes. -/
structure ServerBuilder where
  shutdownTimeout : Option Duration := none

namespace ServerBuilder

/-- `ServerBuilder::new`. -/
def new : ServerBuilder := {}

/-- `ServerBuilder::shutdown_timeout`. -/
def withShutdownTimeout (self : ServerBuilder) (d : Duration) : ServerBuilder :=
  { self with shutdownTimeout := some d }

/-- `ServerBuilder::build`, once the listener is bound. -/
def build (self : ServerBuilder) : Server := { shutdownTimeout := self.shutdownTimeout }

end ServerBuilder

/-- What a reading of the clock brings: whether the shutdown future resolves, and the
requests that come in, by the time they take; `none` never finishes. -/
structure Instant where
  shutdown : Bool
  requests : List (Option Duration)
deriving DecidableEq, Repr

/-- `axum::serve` with graceful shutdown: when the shutdown future resolved, and when
the requests in flight end. -/
structure Serve where
  resolvedAt : Option Duration := none
  inFlight : List (Option Duration) := []
deriving DecidableEq, Repr

/-- The request has not ended yet. -/
def running (now : Duration) (finish : Option Duration) : Bool := finish.all (now < ·)

/-- A reading of the clock: requests are accepted until shutdown has resolved, and
leave when they end. -/
def Serve.advance (serve : Serve) (now : Duration) (instant : Instant) : Serve :=
  match serve.resolvedAt with
  | some _ => { serve with inFlight := serve.inFlight.filter (running now) }
  | none =>
      let accepted := instant.requests.map fun duration => duration.map (now + ·)
      { resolvedAt := if instant.shutdown then some now else none
        inFlight := (serve.inFlight ++ accepted).filter (running now) }

variable {IoError α : Type}

/-- It is ready exactly when shutdown has resolved and no request is in flight. -/
def Serve.poll (serve : Serve) (result : Except IoError Unit) : Option (Except IoError Unit) :=
  if serve.resolvedAt.isSome ∧ serve.inFlight = [] then some result else none

/-- `Elapsed`, the error of a timeout. -/
inductive Elapsed where
  | elapsed

/-- `tokio::time::timeout`, started at reading zero: the future is polled first. -/
def timeout (d now : Duration) (polled : Option α) : Option (Except Elapsed α) :=
  match polled with
  | some value => some (.ok value)
  | none => if d ≤ now then some (.error .elapsed) else none

/-- A poll of `Server::run_with_shutdown`. -/
def runWithShutdown (self : Server) (now : Duration) (serve : Option (Except IoError Unit)) :
    Option (Except (Error IoError) Unit) :=
  match self.shutdownTimeout with
  | some d => (timeout d now serve).map fun
      | .ok res => res.mapError Error.io
      | .error _ => .error (.shutdownTimeout d)
  | none => serve.map fun res => res.mapError Error.io

/-- A server that runs: the clock, and what it returned and when. -/
structure State (IoError : Type) where
  now : Duration := 0
  serve : Serve := {}
  returned : Option (Duration × Except (Error IoError) Unit) := none

/-- One reading of the clock; a server that has returned does nothing more. -/
def step (self : Server) (result : Except IoError Unit) (s : State IoError)
    (instant : Instant) : State IoError :=
  match s.returned with
  | some _ => { s with now := s.now + 1 }
  | none =>
      let serve := s.serve.advance s.now instant
      { now := s.now + 1
        serve
        returned := (self.runWithShutdown s.now (serve.poll result)).map fun out => (s.now, out) }

/-- The run of a server over so many readings of the clock. -/
def run (self : Server) (result : Except IoError Unit) (schedule : Nat → Instant) :
    Nat → State IoError
  | 0 => {}
  | readings + 1 => self.step result (self.run result schedule readings) (schedule readings)

end Server

end AltairRs
