/-!
# Programs that request operations

A `Program` is the finite tree of the requests a piece of effectful code makes,
with one branch for every response. The program does not say what a request
does: a `World` answers it, and may refuse, fail, or answer in several ways.

`Reaches` is the authoritative execution relation. It retains the trace of
answered requests and stops at any remainder of the program, so a remainder
other than `done` is an execution cut by a crash. `Safe` is the matching
program logic: an assertion on the history and state that holds at every cut.
-/

namespace Effect

universe u v w

/-- Requestable operations, each with the type of its response. -/
structure Signature where
  Op : Type u
  Response : Op → Type u

/-- One answered request. -/
structure Event (sig : Signature.{u}) where
  operation : sig.Op
  response : sig.Response operation

/-- A finite effectful computation returning `α`. -/
inductive Program (sig : Signature.{u}) (α : Type u) : Type u where
  | done (value : α) : Program sig α
  | request (operation : sig.Op) (resume : sig.Response operation → Program sig α) :
      Program sig α

/-- A relational environment for the operations of a signature. -/
structure World (sig : Signature.{u}) (State : Type v) where
  Answers : State → (operation : sig.Op) → sig.Response operation → State → Prop

/-- The world in which every step meets a condition on the state before it. -/
def World.restrict {sig : Signature.{u}} {State : Type v} (world : World sig State)
    (meets : State → sig.Op → Prop) : World sig State where
  Answers state operation response next :=
    meets state operation ∧ world.Answers state operation response next

namespace Program

variable {sig : Signature.{u}} {α β γ : Type u}

/-- Sequence two programs by grafting the second at every return. -/
def bind (program : Program sig α) (next : α → Program sig β) : Program sig β :=
  match program with
  | .done value => next value
  | .request operation resume => .request operation fun response => (resume response).bind next

instance : Monad (Program sig) where
  pure := .done
  bind := bind

/-- Request one operation and return its response. -/
def perform (sig : Signature.{u}) (operation : sig.Op) :
    Program sig (sig.Response operation) :=
  .request operation .done

@[simp] theorem pure_eq (value : α) : (pure value : Program sig α) = .done value := rfl

@[simp] theorem done_bind (value : α) (next : α → Program sig β) :
    (Program.done value >>= next) = next value := rfl

@[simp] theorem request_bind (operation : sig.Op)
    (resume : sig.Response operation → Program sig α) (next : α → Program sig β) :
    (Program.request operation resume >>= next) =
      .request operation fun response => resume response >>= next := rfl

@[simp] theorem perform_bind (operation : sig.Op)
    (next : sig.Response operation → Program sig β) :
    (perform sig operation >>= next) = .request operation next := rfl

/-- Ending with the value changes nothing. -/
theorem bind_done (program : Program sig α) : program >>= .done = program := by
  induction program with
  | done value => rfl
  | request operation resume ih =>
      rw [request_bind]
      congr 1
      ext response
      exact ih response

/-- Sequences may be regrouped. -/
theorem bind_assoc (program : Program sig α) (first : α → Program sig β)
    (second : β → Program sig γ) :
    (program >>= first) >>= second = program >>= fun value => first value >>= second := by
  induction program with
  | done value => rfl
  | request operation resume ih =>
      simp only [request_bind]
      congr 1
      ext response
      exact ih response

instance : LawfulMonad (Program sig) :=
  LawfulMonad.mk' (Program sig) (fun program => bind_done program) (fun _ _ => rfl) bind_assoc

end Program

variable {sig : Signature.{u}} {State : Type v} {α β : Type u}

/-- A finite execution: the trace of answered requests between a program and a
remainder of it. -/
inductive Reaches (world : World sig State) :
    Program sig α → State → List (Event sig) → Program sig α → State → Prop where
  | refl {program state} : Reaches world program state [] program state
  | step {operation resume state response next events program final}
      (answer : world.Answers state operation response next)
      (rest : Reaches world (resume response) next events program final) :
      Reaches world (.request operation resume) state
        (⟨operation, response⟩ :: events) program final

/-- A complete execution, ending in a returned value. -/
abbrev Returns (world : World sig State) (program : Program sig α) (state : State)
    (events : List (Event sig)) (value : α) (final : State) : Prop :=
  Reaches world program state events (.done value) final

/-- A returned program performs nothing more. -/
theorem Reaches.of_done {world : World sig State} {value : α} {state final : State}
    {events : List (Event sig)} {program : Program sig α}
    (reaches : Reaches world (.done value) state events program final) :
    events = [] ∧ program = .done value ∧ final = state := by
  cases reaches
  exact ⟨rfl, rfl, rfl⟩

/-- An execution without an answer stays where it is. -/
theorem Reaches.of_nil {world : World sig State} {program remainder : Program sig α}
    {state final : State} (reaches : Reaches world program state [] remainder final) :
    remainder = program ∧ final = state := by
  cases reaches
  exact ⟨rfl, rfl⟩

/-- Compose two executions that meet at the same remainder and state. -/
theorem Reaches.trans {world : World sig State} {first middle last : Program sig α}
    {state next final : State} {events suffix : List (Event sig)}
    (before : Reaches world first state events middle next)
    (after : Reaches world middle next suffix last final) :
    Reaches world first state (events ++ suffix) last final := by
  induction before with
  | refl => exact after
  | step answer _ ih => exact .step answer (ih after)

/-- An execution of a program is one of every program that starts with it. -/
theorem Reaches.bind {world : World sig State} {program remainder : Program sig α}
    {state final : State} {events : List (Event sig)}
    (reaches : Reaches world program state events remainder final) (next : α → Program sig β) :
    Reaches world (program >>= next) state events (remainder >>= next) final := by
  induction reaches with
  | refl => exact .refl
  | step answer _ ih => exact .step answer ih

/-- A complete execution of a sequence is one of its first program, and then one of
the second on what the first returned. -/
theorem Reaches.of_bind {world : World sig State} {program : Program sig α}
    {next : α → Program sig β} {state final : State} {events : List (Event sig)} {value : β}
    (run : Returns world (program >>= next) state events value final) :
    ∃ before first here after, events = before ++ after ∧
      Returns world program state before first here ∧
      Returns world (next first) here after value final := by
  induction program generalizing state events with
  | done first => exact ⟨[], first, state, events, rfl, .refl, run⟩
  | request operation resume ih =>
      cases run with
      | step answer rest =>
          obtain ⟨before, first, here, after, rfl, earlier, later⟩ := ih _ rest
          exact ⟨_ :: before, first, here, after, rfl, .step answer earlier, later⟩

/-- An execution of a sequence is cut in its first program, or that one has
returned. -/
theorem Reaches.of_bind_cut {world : World sig State} {program : Program sig α}
    {next : α → Program sig β} {remainder : Program sig β} {state final : State}
    {events : List (Event sig)}
    (reaches : Reaches world (program >>= next) state events remainder final) :
    (∃ left, Reaches world program state events left final ∧ remainder = left >>= next) ∨
      ∃ before first here after, events = before ++ after ∧
        Returns world program state before first here ∧
        Reaches world (next first) here after remainder final := by
  induction program generalizing state events with
  | done first => exact .inr ⟨[], first, state, events, rfl, .refl, reaches⟩
  | request operation resume ih =>
      cases reaches with
      | refl => exact .inl ⟨_, .refl, rfl⟩
      | step answer rest =>
          rcases ih _ rest with ⟨left, inside, rfl⟩ | ⟨before, first, here, after, rfl, run, later⟩
          · exact .inl ⟨left, .step answer inside, rfl⟩
          · exact .inr ⟨_ :: before, first, here, after, rfl, .step answer run, later⟩

/-- If a failure of its first program fails it, an execution of a sequence that
succeeds is a success of both. -/
theorem Reaches.of_bind_ok {ε ε' : Type u} {world : World sig State}
    {program : Program sig (Except ε α)} {next : Except ε α → Program sig (Except ε' β)}
    {state final : State} {events : List (Event sig)} {value : β}
    (run : Returns world (program >>= next) state events (.ok value) final)
    (stops : ∀ e, ∃ other, next (.error e) = .done (.error other)) :
    ∃ before first here after, Returns world program state before (.ok first) here ∧
      Returns world (next (.ok first)) here after (.ok value) final := by
  obtain ⟨before, first, here, after, -, earlier, later⟩ := Reaches.of_bind run
  cases first with
  | error e =>
      obtain ⟨other, isError⟩ := stops e
      rw [isError] at later
      cases later.of_done.2.1
  | ok first => exact ⟨before, first, here, after, earlier, later⟩

/-- A complete execution that starts with a request goes on from its answer. -/
theorem Reaches.of_request {world : World sig State} {operation : sig.Op}
    {resume : sig.Response operation → Program sig α} {state final : State}
    {events : List (Event sig)} {value : α}
    (run : Returns world (.request operation resume) state events value final) :
    ∃ response next rest, events = ⟨operation, response⟩ :: rest ∧
      world.Answers state operation response next ∧
      Returns world (resume response) next rest value final := by
  cases run with
  | step answer rest => exact ⟨_, _, _, rfl, answer, rest⟩

/-- A request alone is answered once. -/
theorem Reaches.of_perform {world : World sig State} {operation : sig.Op} {state final : State}
    {events : List (Event sig)} {response : sig.Response operation}
    (run : Returns world (Program.perform sig operation) state events response final) :
    world.Answers state operation response final := by
  cases run with
  | step answer rest =>
      obtain ⟨_, isValue, rfl⟩ := rest.of_done
      cases isValue
      exact answer

/-- A request alone is cut before its answer or after it. -/
theorem Reaches.of_perform_cut {world : World sig State} {operation : sig.Op}
    {state final : State} {events : List (Event sig)}
    {remainder : Program sig (sig.Response operation)}
    (reaches : Reaches world (Program.perform sig operation) state events remainder final) :
    final = state ∨ ∃ response, world.Answers state operation response final := by
  cases reaches with
  | refl => exact .inl rfl
  | step answer rest =>
      obtain ⟨-, -, rfl⟩ := rest.of_done
      exact .inr ⟨_, answer⟩

/-- To run a program for a function of its value is to run the program. -/
theorem Reaches.map_iff {world : World sig State} {program : Program sig α} {f : α → β}
    {state final : State} {events : List (Event sig)} {value : β} :
    Returns world (f <$> program) state events value final ↔
      ∃ result, Returns world program state events result final ∧ f result = value := by
  rw [map_eq_pure_bind]
  constructor
  · intro run
    obtain ⟨before, result, here, after, rfl, earlier, later⟩ := Reaches.of_bind run
    obtain ⟨rfl, isValue, rfl⟩ := later.of_done
    cases isValue
    rw [List.append_nil]
    exact ⟨result, earlier, rfl⟩
  · rintro ⟨result, run, rfl⟩
    exact run.bind _

/-- An execution is seen as one of another world, through a projection that takes
answers to answers. -/
theorem Reaches.simulates {Other : Type w} {world : World sig State} {other : World sig Other}
    {program remainder : Program sig α} {state final : State} {events : List (Event sig)}
    (reaches : Reaches world program state events remainder final) (project : State → Other)
    (answers : ∀ state operation response next, world.Answers state operation response next →
      other.Answers (project state) operation response (project next)) :
    Reaches other program (project state) events remainder (project final) := by
  induction reaches with
  | refl => exact .refl
  | step answer _ ih => exact .step (answers _ _ _ _ answer) ih

/-- An execution in one world is one in every world with its answers. -/
theorem Reaches.in_world {world other : World sig State} {program remainder : Program sig α}
    {state final : State} {events : List (Event sig)}
    (reaches : Reaches world program state events remainder final)
    (answers : ∀ state operation response next, world.Answers state operation response next →
      other.Answers state operation response next) :
    Reaches other program state events remainder final :=
  reaches.simulates id answers

/-- Every event of an execution was answered somewhere in it. -/
theorem Reaches.answered {world : World sig State} {program remainder : Program sig α}
    {state final : State} {events : List (Event sig)} {event : Event sig}
    (reaches : Reaches world program state events remainder final) (member : event ∈ events) :
    ∃ before after, world.Answers before event.operation event.response after := by
  induction reaches with
  | refl => cases member
  | step answer _ ih =>
      rcases List.mem_cons.mp member with rfl | later
      · exact ⟨_, _, answer⟩
      · exact ih later

/-- What every answer preserves holds at every cut. -/
theorem Reaches.preserves {world : World sig State} {invariant : State → Prop}
    {program remainder : Program sig α} {state final : State} {events : List (Event sig)}
    (reaches : Reaches world program state events remainder final)
    (step : ∀ here operation response next, invariant here →
      world.Answers here operation response next → invariant next)
    (start : invariant state) : invariant final := by
  induction reaches with
  | refl => exact start
  | step answer _ ih => exact ih (step _ _ _ _ start answer)

/-- What an execution promises at every cut: an assertion on the history and
state, and a relation that every answered request respects. -/
structure Contract (sig : Signature.{u}) (State : Type v) where
  Inv : List (Event sig) → State → Prop
  Grows : State → State → Prop := fun _ _ => True

/-- The contract holds at every cut of the program and `Post` at every return,
starting from a history already performed. -/
def Safe (world : World sig State) (contract : Contract sig State)
    (Post : α → List (Event sig) → State → Prop) :
    Program sig α → List (Event sig) → State → Prop
  | .done value, history, state => contract.Inv history state ∧ Post value history state
  | .request operation resume, history, state =>
      contract.Inv history state ∧
        ∀ response next, world.Answers state operation response next →
          contract.Grows state next ∧
            Safe world contract Post (resume response) (history ++ [⟨operation, response⟩]) next

namespace Safe

variable {world : World sig State} {contract : Contract sig State}
  {Post : α → List (Event sig) → State → Prop}

/-- Safety includes the invariant at the current cut. -/
theorem inv {program : Program sig α} {history : List (Event sig)} {state : State}
    (safe : Safe world contract Post program history state) : contract.Inv history state := by
  cases program with
  | done value => exact safe.1
  | request operation resume => exact safe.1

/-- Weaken a postcondition, using the invariant at the return. -/
theorem mono {program : Program sig α} {Last : α → List (Event sig) → State → Prop}
    {history : List (Event sig)} {state : State}
    (safe : Safe world contract Post program history state)
    (weaken : ∀ value history state, Post value history state → contract.Inv history state →
      Last value history state) :
    Safe world contract Last program history state := by
  induction program generalizing history state with
  | done value => exact ⟨safe.1, weaken _ _ _ safe.2 safe.1⟩
  | request operation resume ih =>
      refine ⟨safe.1, fun response here answer => ?_⟩
      obtain ⟨grows, rest⟩ := safe.2 response here answer
      exact ⟨grows, ih response rest⟩

/-- Sequencing: the first program establishes the safety of its continuation. -/
theorem bind {program : Program sig α} {next : α → Program sig β}
    {Last : β → List (Event sig) → State → Prop} {history : List (Event sig)} {state : State}
    (safe : Safe world contract
      (fun value history state => Safe world contract Last (next value) history state)
      program history state) :
    Safe world contract Last (program >>= next) history state := by
  induction program generalizing history state with
  | done value => exact safe.2
  | request operation resume ih =>
      refine ⟨safe.1, fun response here answer => ?_⟩
      obtain ⟨grows, rest⟩ := safe.2 response here answer
      exact ⟨grows, ih response rest⟩

/-- Sequencing, from what the first program is safe with. -/
theorem seq {program : Program sig α} {next : α → Program sig β}
    {Last : β → List (Event sig) → State → Prop} {history : List (Event sig)} {state : State}
    (first : Safe world contract Post program history state)
    (second : ∀ value history state, Post value history state → contract.Inv history state →
      Safe world contract Last (next value) history state) :
    Safe world contract Last (program >>= next) history state :=
  bind (first.mono second)

/-- Safety passes to every remainder an execution reaches. -/
theorem reaches {program remainder : Program sig α} {history events : List (Event sig)}
    {state final : State} (safe : Safe world contract Post program history state)
    (execution : Reaches world program state events remainder final) :
    Safe world contract Post remainder (history ++ events) final := by
  induction execution generalizing history with
  | refl => simpa using safe
  | step answer _ ih =>
      have rest := ih (safe.2 _ _ answer).2
      simpa using rest

/-- The invariant holds at every cut of every execution. -/
theorem inv_of_reaches {program remainder : Program sig α} {history events : List (Event sig)}
    {state final : State} (safe : Safe world contract Post program history state)
    (execution : Reaches world program state events remainder final) :
    contract.Inv (history ++ events) final :=
  (safe.reaches execution).inv

/-- A reflexive and transitive growth relation holds between any two cuts. -/
theorem grows_of_reaches {program remainder : Program sig α}
    {history events : List (Event sig)} {state final : State}
    (refl : ∀ here, contract.Grows here here)
    (trans : ∀ {first middle last}, contract.Grows first middle →
      contract.Grows middle last → contract.Grows first last)
    (safe : Safe world contract Post program history state)
    (execution : Reaches world program state events remainder final) :
    contract.Grows state final := by
  induction execution generalizing history with
  | refl => exact refl _
  | step answer _ ih =>
      obtain ⟨grows, rest⟩ := safe.2 _ _ answer
      exact trans grows (ih rest)

/-- The postcondition holds at every return. -/
theorem post_of_returns {program : Program sig α} {history events : List (Event sig)}
    {state final : State} {value : α} (safe : Safe world contract Post program history state)
    (execution : Returns world program state events value final) :
    Post value (history ++ events) final :=
  (safe.reaches execution).2

end Safe

/-- Successive executions of programs drawn from one family in one world. An
execution may be cut anywhere; the next one starts from the state it left. -/
inductive Executions (world : World sig State) (family : Program sig α → Prop) :
    State → List (Event sig) → State → Prop where
  | nil {state} : Executions world family state [] state
  | snoc {initial history state program events remainder final}
      (prior : Executions world family initial history state)
      (member : family program)
      (execution : Reaches world program state events remainder final) :
      Executions world family initial (history ++ events) final

/-- An invariant that makes every program of the family safe holds after any
number of executions, cut or complete. -/
theorem Executions.invariant {world : World sig State} {family : Program sig α → Prop}
    {contract : Contract sig State} {Post : α → List (Event sig) → State → Prop}
    {initial final : State} {history : List (Event sig)}
    (executions : Executions world family initial history final)
    (start : contract.Inv [] initial)
    (safe : ∀ program history state, family program → contract.Inv history state →
      Safe world contract Post program history state) : contract.Inv history final := by
  induction executions with
  | nil => exact start
  | snoc _ member execution ih => exact (safe _ _ _ member ih).inv_of_reaches execution

/-- Successive executions are seen as ones of another world, through a projection
that takes answers to answers. -/
theorem Executions.simulates {Other : Type w} {world : World sig State} {other : World sig Other}
    {family : Program sig α → Prop} {initial final : State} {history : List (Event sig)}
    (executions : Executions world family initial history final) (project : State → Other)
    (answers : ∀ state operation response next, world.Answers state operation response next →
      other.Answers (project state) operation response (project next)) :
    Executions other family (project initial) history (project final) := by
  induction executions with
  | nil => exact .nil
  | snoc _ member execution ih => exact .snoc ih member (execution.simulates project answers)

/-- A computable environment: every operation has one answer. -/
abbrev Handler (sig : Signature.{u}) (State : Type u) :=
  State → (operation : sig.Op) → sig.Response operation × State

/-- The world in which a handler gives the only answer. -/
def Handler.world {State : Type u} (handler : Handler sig State) : World sig State where
  Answers state operation response next := handler state operation = (response, next)

/-- What one complete execution under a handler leaves. -/
structure Outcome (sig : Signature.{u}) (State α : Type u) where
  events : List (Event sig)
  value : α
  state : State

/-- Run a program under a handler. -/
def Handler.eval {State : Type u} (handler : Handler sig State) :
    Program sig α → State → Outcome sig State α
  | .done value, state => ⟨[], value, state⟩
  | .request operation resume, state =>
      let answer := handler state operation
      let rest := handler.eval (resume answer.1) answer.2
      { rest with events := ⟨operation, answer.1⟩ :: rest.events }

/-- Evaluation is the complete execution in the handler's world. -/
theorem Handler.eval_returns {State : Type u} (handler : Handler sig State)
    (program : Program sig α) (state : State) :
    Returns handler.world program state (handler.eval program state).events
      (handler.eval program state).value (handler.eval program state).state := by
  induction program generalizing state with
  | done value => exact .refl
  | request operation resume ih =>
      have answer : handler.world.Answers state operation (handler state operation).1
        (handler state operation).2 := rfl
      exact .step answer (ih _ _)

/-- Evaluation of a sequence feeds the first outcome to the second program. -/
theorem Handler.eval_bind {State : Type u} (handler : Handler sig State)
    (program : Program sig α) (next : α → Program sig β) (state : State) :
    handler.eval (program >>= next) state =
      let first := handler.eval program state
      let second := handler.eval (next first.value) first.state
      { second with events := first.events ++ second.events } := by
  induction program generalizing state with
  | done value => rfl
  | request operation resume ih =>
      simp only [Program.request_bind, Handler.eval, ih, List.cons_append]

/-- Under the handler the program ends with the value, in the state. -/
structure Handler.Gives {State : Type u} (handler : Handler sig State) (program : Program sig α)
    (state : State) (value : α) (final : State) : Prop where
  value_eq : (handler.eval program state).value = value
  state_eq : (handler.eval program state).state = final

namespace Handler.Gives

variable {State : Type u} {handler : Handler sig State} {state next final : State}

/-- A program that is done gives its value. -/
theorem done (value : α) : handler.Gives (.done value) state value state := ⟨rfl, rfl⟩

/-- A request gives its answer. -/
theorem perform {operation : sig.Op} {response : sig.Response operation}
    (answer : handler state operation = (response, next)) :
    handler.Gives (Program.perform sig operation) state response next :=
  ⟨congrArg Prod.fst answer, congrArg Prod.snd answer⟩

/-- Sequencing: the second program runs on what the first one gives. -/
theorem bind {program : Program sig α} {onward : α → Program sig β} {first : α} {second : β}
    (before : handler.Gives program state first next)
    (after : handler.Gives (onward first) next second final) :
    handler.Gives (program >>= onward) state second final := by
  obtain ⟨rfl, rfl⟩ := before
  obtain ⟨isValue, isState⟩ := after
  exact ⟨by rw [Handler.eval_bind, ← isValue], by rw [Handler.eval_bind, ← isState]⟩

/-- What a request gives is its answer. -/
theorem of_perform {operation : sig.Op} {response : sig.Response operation}
    (gives : handler.Gives (Program.perform sig operation) state response next) :
    handler state operation = (response, next) :=
  Prod.ext gives.value_eq gives.state_eq

/-- What a sequence gives is what its second program gives on what its first one does. -/
theorem of_bind {program : Program sig α} {onward : α → Program sig β} {second : β}
    (gives : handler.Gives (program >>= onward) state second final) :
    ∃ first next, handler.Gives program state first next ∧
      handler.Gives (onward first) next second final := by
  obtain ⟨isValue, isState⟩ := gives
  rw [Handler.eval_bind] at isValue isState
  exact ⟨_, _, ⟨rfl, rfl⟩, isValue, isState⟩

/-- A handler gives one value and one state. -/
theorem unique {program : Program sig α} {value other : α} {last : State}
    (first : handler.Gives program state value final)
    (second : handler.Gives program state other last) : value = other ∧ final = last :=
  ⟨first.value_eq.symm.trans second.value_eq, first.state_eq.symm.trans second.state_eq⟩

end Handler.Gives

/-- Run a program again and again while its value asks for it; `none` when the
fuel ends first. -/
def Handler.repeatWhile {State : Type u} (handler : Handler sig State)
    (program : Program sig α) (again : α → Bool) :
    Nat → State → Option (List (Outcome sig State α))
  | 0, _ => none
  | fuel + 1, state =>
      let outcome := handler.eval program state
      if again outcome.value then
        (handler.repeatWhile program again fuel outcome.state).map (outcome :: ·)
      else
        some [outcome]

end Effect
