import Mathlib.Logic.Relation
import AltairRs.Effect.Program

/-!
# Two programs over one state

Two programs run over one state in any interleaving, with an environment. A call is
answered at a state reached since it was made, and both programs and the
environment may act in between.

`Guarded` is the rely-guarantee logic of one of them: it promises its own steps,
given that everybody else takes only the steps it relies on. What a program owns is
a ghost of that logic. Two guarded programs whose ghosts are compatible stay
guarded in every interleaving.
-/

namespace Effect

universe u v w

/-- An environment, and the effect of a call made in one state and answered in
another. -/
structure Service (sig : Signature.{u}) (State : Type v) where
  Environment : State → State → Prop
  Answers : State → State → (operation : sig.Op) → sig.Response operation → State → Prop

/-- A program, and the state in which its pending call was made. -/
structure Thread (sig : Signature.{u}) (State : Type v) (α : Type u) where
  program : Program sig α
  since : State

/-- Two programs over one state, and what each has been answered. -/
structure Pair (sig : Signature.{u}) (State : Type v) (α β : Type u) where
  state : State
  first : Thread sig State α
  second : Thread sig State β
  firstEvents : List (Event sig)
  secondEvents : List (Event sig)

variable {sig : Signature.{u}} {State : Type v} {α β : Type u}

/-- The world of one program that runs alone with the environment. -/
def Service.world (service : Service sig State) : World sig State where
  Answers start operation response next :=
    ∃ ready, Relation.ReflTransGen service.Environment start ready ∧
      service.Answers start ready operation response next

namespace Pair

/-- Both programs are about to start. -/
def start (state : State) (first : Program sig α) (second : Program sig β) :
    Pair sig State α β where
  state
  first := ⟨first, state⟩
  second := ⟨second, state⟩
  firstEvents := []
  secondEvents := []

def swap (pair : Pair sig State α β) : Pair sig State β α where
  state := pair.state
  first := pair.second
  second := pair.first
  firstEvents := pair.secondEvents
  secondEvents := pair.firstEvents

/-- The environment acts, or a program is answered. -/
inductive Step (service : Service sig State) : Pair sig State α β → Pair sig State α β → Prop where
  | environment {pair next} (acts : service.Environment pair.state next) :
      Step service pair { pair with state := next }
  | first {pair operation resume response next}
      (pending : pair.first.program = .request operation resume)
      (effect : service.Answers pair.first.since pair.state operation response next) :
      Step service pair { pair with
        state := next
        first := ⟨resume response, next⟩
        firstEvents := pair.firstEvents ++ [⟨operation, response⟩] }
  | second {pair operation resume response next}
      (pending : pair.second.program = .request operation resume)
      (effect : service.Answers pair.second.since pair.state operation response next) :
      Step service pair { pair with
        state := next
        second := ⟨resume response, next⟩
        secondEvents := pair.secondEvents ++ [⟨operation, response⟩] }

/-- Any number of steps. -/
abbrev Steps (service : Service sig State) : Pair sig State α β → Pair sig State α β → Prop :=
  Relation.ReflTransGen (Step service)

variable {service : Service sig State}

/-- The roles of the two programs may be exchanged. -/
theorem Step.swap {pair next : Pair sig State α β} (step : Step service pair next) :
    Step service pair.swap next.swap := by
  cases step with
  | environment acts => exact @Step.environment _ _ _ _ service pair.swap _ acts
  | first pending effect => exact @Step.second _ _ _ _ service pair.swap _ _ _ _ pending effect
  | second pending effect => exact @Step.first _ _ _ _ service pair.swap _ _ _ _ pending effect

/-- So do any number of steps. -/
theorem Steps.swap {pair next : Pair sig State α β} (steps : Steps service pair next) :
    Steps service pair.swap next.swap := by
  induction steps with
  | refl => exact .refl
  | tail _ step ih => exact ih.tail step.swap

/-- The environment alone. -/
theorem steps_of_environment {pair : Pair sig State α β} {ready : State}
    (acts : Relation.ReflTransGen service.Environment pair.state ready) :
    Steps service pair { pair with state := ready } := by
  induction acts with
  | refl => exact .refl
  | tail _ act ih => exact ih.tail (.environment act)

/-- An execution of the first program alone is one beside an idle second program. -/
theorem steps_of_reaches {program remainder : Program sig α} {state final : State}
    {events : List (Event sig)}
    (reaches : Reaches service.world program state events remainder final)
    (second : Thread sig State β) (firstEvents secondEvents : List (Event sig)) :
    Steps service ⟨state, ⟨program, state⟩, second, firstEvents, secondEvents⟩
      ⟨final, ⟨remainder, final⟩, second, firstEvents ++ events, secondEvents⟩ := by
  induction reaches generalizing firstEvents with
  | refl => rw [List.append_nil]
  | @step operation resume state response next events program final answer _ ih =>
      obtain ⟨ready, acts, effect⟩ := answer
      let waiting : Pair sig State α β :=
        ⟨state, ⟨.request operation resume, state⟩, second, firstEvents, secondEvents⟩
      have waits : Steps service waiting { waiting with state := ready } :=
        steps_of_environment acts
      have rest := ih (firstEvents ++ [⟨operation, response⟩])
      rw [List.append_assoc, List.singleton_append] at rest
      have answered : Step service { waiting with state := ready } _ := .first rfl effect
      exact (waits.tail answered).trans rest

end Pair

/-- What a program relies on and guarantees, given what it owns. -/
structure Interference (service : Service sig State) (Ghost : Type w) where
  Rely : Ghost → State → State → Prop
  Guarantee : Ghost → State → Ghost → State → Prop
  Compatible : Ghost → Ghost → State → Prop
  symm : ∀ {ghost other here}, Compatible ghost other here → Compatible other ghost here
  environment : ∀ {ghost other here next}, Compatible ghost other here →
    service.Environment here next → Rely ghost here next ∧ Compatible ghost other next
  guarantee : ∀ {ghost other here ghost' next}, Compatible ghost other here →
    Guarantee ghost here ghost' next → Rely other here next ∧ Compatible ghost' other next

variable {service : Service sig State} {Ghost : Type w}
  {interference : Interference service Ghost}

/-- Every answer to the program keeps its guarantee, whatever happened since the call
as long as it may be relied on; `Post` holds at every return. -/
def Guarded (interference : Interference service Ghost) (Post : α → Ghost → State → Prop) :
    Program sig α → Ghost → State → State → Prop
  | .done value, ghost, _, here => Post value ghost here
  | .request operation resume, ghost, since, here =>
      ∀ ready response next, Relation.ReflTransGen (interference.Rely ghost) here ready →
        service.Answers since ready operation response next →
          ∃ ghost', interference.Guarantee ghost ready ghost' next ∧
            Guarded interference Post (resume response) ghost' next next

namespace Guarded

variable {Post : α → Ghost → State → Prop} {ghost : Ghost} {since here : State}

/-- Sequencing: the second program is guarded from wherever the first one returns. -/
theorem seq {program : Program sig α} {next : α → Program sig β}
    {Last : β → Ghost → State → Prop}
    (first : Guarded interference Post program ghost since here)
    (second : ∀ value ghost since here, Post value ghost here →
      Guarded interference Last (next value) ghost since here) :
    Guarded interference Last (program >>= next) ghost since here := by
  induction program generalizing ghost since here with
  | done value => exact second value ghost since here first
  | request operation resume ih =>
      intro ready response answered relies effect
      obtain ⟨ghost', keeps, rest⟩ := first ready response answered relies effect
      exact ⟨ghost', keeps, ih response rest⟩

/-- One call. -/
theorem perform {operation : sig.Op} {Post : sig.Response operation → Ghost → State → Prop}
    (answer : ∀ ready response next, Relation.ReflTransGen (interference.Rely ghost) here ready →
      service.Answers since ready operation response next →
        ∃ ghost', interference.Guarantee ghost ready ghost' next ∧ Post response ghost' next) :
    Guarded interference Post (Program.perform sig operation) ghost since here :=
  answer

/-- A guarded program stays guarded while others act. -/
theorem rely {program : Program sig α} {next : State}
    (guarded : Guarded interference (fun _ _ _ => True) program ghost since here)
    (relied : interference.Rely ghost here next) :
    Guarded interference (fun _ _ _ => True) program ghost since next := by
  cases program with
  | done value => trivial
  | request operation resume =>
      intro ready response answered relies effect
      exact guarded ready response answered (.head relied relies) effect

end Guarded

/-- Both programs are guarded, with compatible ghosts. -/
def Pair.BothGuarded (interference : Interference service Ghost) (pair : Pair sig State α β) :
    Prop :=
  ∃ ghost other, interference.Compatible ghost other pair.state ∧
    Guarded interference (fun _ _ _ => True) pair.first.program ghost pair.first.since pair.state ∧
    Guarded interference (fun _ _ _ => True) pair.second.program other pair.second.since pair.state

namespace Pair.BothGuarded

/-- Both are guarded whichever comes first. -/
theorem swap {pair : Pair sig State α β} (guarded : pair.BothGuarded interference) :
    pair.swap.BothGuarded interference := by
  obtain ⟨ghost, other, compatible, first, second⟩ := guarded
  exact ⟨other, ghost, interference.symm compatible, second, first⟩

/-- An answer to the first program. -/
theorem first {pair : Pair sig State α β} (guarded : pair.BothGuarded interference)
    {operation : sig.Op} {resume : sig.Response operation → Program sig α}
    {response : sig.Response operation} {next : State}
    (pending : pair.first.program = .request operation resume)
    (effect : service.Answers pair.first.since pair.state operation response next)
    (firstEvents : List (Event sig)) :
    Pair.BothGuarded interference
      { pair with state := next, first := ⟨resume response, next⟩, firstEvents } := by
  obtain ⟨ghost, other, compatible, isFirst, isSecond⟩ := guarded
  rw [pending] at isFirst
  obtain ⟨ghost', keeps, rest⟩ := isFirst pair.state response next .refl effect
  obtain ⟨relied, stillCompatible⟩ := interference.guarantee compatible keeps
  exact ⟨ghost', other, stillCompatible, rest, isSecond.rely relied⟩

/-- Every step keeps both programs guarded. -/
theorem step {pair next : Pair sig State α β} (guarded : pair.BothGuarded interference)
    (step : Pair.Step service pair next) : next.BothGuarded interference := by
  cases step with
  | environment acts =>
      obtain ⟨ghost, other, compatible, isFirst, isSecond⟩ := guarded
      obtain ⟨relied, stillCompatible⟩ := interference.environment compatible acts
      obtain ⟨reliedByOther, _⟩ := interference.environment (interference.symm compatible) acts
      exact ⟨ghost, other, stillCompatible, isFirst.rely relied, isSecond.rely reliedByOther⟩
  | first pending effect => exact guarded.first pending effect _
  | second pending effect =>
      have swapped : pair.swap.BothGuarded interference := guarded.swap
      exact (swapped.first pending effect _).swap

/-- Every interleaving keeps both programs guarded. -/
theorem steps {pair next : Pair sig State α β} (guarded : pair.BothGuarded interference)
    (steps : Pair.Steps service pair next) : next.BothGuarded interference := by
  induction steps with
  | refl => exact guarded
  | tail _ one ih => exact ih.step one

end Pair.BothGuarded

end Effect
