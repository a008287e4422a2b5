import Mathlib.Logic.Function.Basic
import Mathlib.Logic.Relation
import AltairRs.Effect.Program

/-!
# Any number of programs over one state

Named programs run in one world, in any interleaving. The history has every answer
with the name of the program it went to. `Steady` says what a program does at its own
calls, whatever the others did since its last one: they have kept the invariant, the
state has only grown, and every answer in the history under the program's name is one
it knows. A program that is never answered has not been started, and one that is
answered no longer has crashed.
-/

namespace Effect

universe u v w

variable {sig : Signature.{u}} {State : Type v} {Name : Type w} {α β : Type u}

/-- Answers, with the names of the programs they went to. -/
abbrev SharedHistory (sig : Signature.{u}) (Name : Type w) := List (Name × Event sig)

/-- Programs over one state, and what they have been answered. -/
structure Pool (sig : Signature.{u}) (State : Type v) (Name : Type w) (α : Type u) where
  state : State
  program : Name → Program sig α
  history : SharedHistory sig Name

/-- What the programs of a pool keep, and an order in which the state grows. -/
structure Protocol (sig : Signature.{u}) (State : Type v) (Name : Type w) where
  Inv : SharedHistory sig Name → State → Prop
  Grows : State → State → Prop
  growsRefl : ∀ state, Grows state state
  growsTrans : ∀ {first middle last}, Grows first middle → Grows middle last → Grows first last

/-- Only programs of other names have been answered. -/
def Others (name : Name) (history later : SharedHistory sig Name) : Prop :=
  ∃ others, later = history ++ others ∧ ∀ answer ∈ others, answer.1 ≠ name

namespace Others

variable {history middle later : SharedHistory sig Name} {name : Name}

/-- Nothing has been done. -/
theorem refl (name : Name) (history : SharedHistory sig Name) : Others name history history :=
  ⟨[], (List.append_nil history).symm, List.forall_mem_nil _⟩

/-- Others act after others. -/
theorem trans (first : Others name history middle) (second : Others name middle later) :
    Others name history later := by
  obtain ⟨early, rfl, allEarly⟩ := first
  obtain ⟨late, rfl, allLate⟩ := second
  exact ⟨early ++ late, List.append_assoc .., List.forall_mem_append.mpr ⟨allEarly, allLate⟩⟩

/-- One answer to another. -/
theorem answer {other : Name} (different : other ≠ name) (history : SharedHistory sig Name)
    (event : Event sig) : Others name history (history ++ [(other, event)]) :=
  ⟨[(other, event)], rfl, List.forall_mem_singleton.mpr different⟩

end Others

/-- In every state in which the invariant holds, whatever the others were answered
since, the program keeps the protocol; `Post` holds when it returns. -/
def Steady (world : World sig State) (protocol : Protocol sig State Name) (name : Name)
    (Post : α → SharedHistory sig Name → State → Prop) :
    Program sig α → SharedHistory sig Name → State → Prop
  | .done value, history, since => Post value history since
  | .request operation resume, history, since =>
      ∀ later here response next, Others name history later → protocol.Grows since here →
        protocol.Inv later here → world.Answers here operation response next →
          protocol.Grows here next ∧
            protocol.Inv (later ++ [(name, ⟨operation, response⟩)]) next ∧
            Steady world protocol name Post (resume response)
              (later ++ [(name, ⟨operation, response⟩)]) next

/-- A postcondition that the others cannot take back. -/
def Protocol.IsStable (protocol : Protocol sig State Name) (name : Name)
    (Post : α → SharedHistory sig Name → State → Prop) : Prop :=
  ∀ value history since later here, Others name history later → protocol.Grows since here →
    Post value history since → Post value later here

namespace Steady

variable {world : World sig State} {protocol : Protocol sig State Name} {name : Name}
  {Post : α → SharedHistory sig Name → State → Prop} {history later : SharedHistory sig Name}
  {since here : State}

/-- Weaken a postcondition. -/
theorem mono {program : Program sig α} {Last : α → SharedHistory sig Name → State → Prop}
    (steady : Steady world protocol name Post program history since)
    (weaken : ∀ value history since, Post value history since → Last value history since) :
    Steady world protocol name Last program history since := by
  induction program generalizing history since with
  | done value => exact weaken _ _ _ steady
  | request operation resume ih =>
      intro later here response next others grown holds answer
      obtain ⟨grows, kept, rest⟩ := steady later here response next others grown holds answer
      exact ⟨grows, kept, ih response rest⟩

/-- Sequencing: the second program is steady from wherever the first one returns. -/
theorem bind {program : Program sig α} {next : α → Program sig β}
    {Last : β → SharedHistory sig Name → State → Prop}
    (first : Steady world protocol name Post program history since)
    (second : ∀ value history since, Post value history since →
      Steady world protocol name Last (next value) history since) :
    Steady world protocol name Last (program >>= next) history since := by
  induction program generalizing history since with
  | done value => exact second value history since first
  | request operation resume ih =>
      intro later here response after others grown holds answer
      obtain ⟨grows, kept, rest⟩ := first later here response after others grown holds answer
      exact ⟨grows, kept, ih response rest⟩

/-- A program stays steady while others are answered. -/
theorem others {program : Program sig α} (stable : protocol.IsStable name Post)
    (steady : Steady world protocol name Post program history since)
    (acted : Others name history later) (grown : protocol.Grows since here) :
    Steady world protocol name Post program later here := by
  cases program with
  | done value => exact stable value history since later here acted grown steady
  | request operation resume =>
      intro latest now response next others grownLater
      exact steady latest now response next (acted.trans others)
        (protocol.growsTrans grown grownLater)

end Steady

namespace Pool

variable {world : World sig State} {protocol : Protocol sig State Name}
  {Post : Name → α → SharedHistory sig Name → State → Prop} {pool next : Pool sig State Name α}

/-- The programs are about to start. -/
def start (state : State) (program : Name → Program sig α) : Pool sig State Name α where
  state
  program
  history := []

/-- The invariant holds and every program is steady. -/
structure IsSteady (world : World sig State) (protocol : Protocol sig State Name)
    (Post : Name → α → SharedHistory sig Name → State → Prop) (pool : Pool sig State Name α) :
    Prop where
  inv : protocol.Inv pool.history pool.state
  steady : ∀ name,
    Steady world protocol name (Post name) (pool.program name) pool.history pool.state

/-- What a program that has returned promised. -/
theorem IsSteady.returned (isSteady : pool.IsSteady world protocol Post) {name : Name} {value : α}
    (done : pool.program name = .done value) : Post name value pool.history pool.state := by
  have here := isSteady.steady name
  rwa [done] at here

variable [DecidableEq Name]

/-- A program has been answered, and goes on with the rest of it. -/
def answered (pool : Pool sig State Name α) (name : Name) (event : Event sig)
    (rest : Program sig α) (next : State) : Pool sig State Name α where
  state := next
  program := Function.update pool.program name rest
  history := pool.history ++ [(name, event)]

/-- The programs after an answer. -/
theorem answered_program (name : Name) (event : Event sig) (rest : Program sig α) (here : State) :
    (pool.answered name event rest here).program = Function.update pool.program name rest := rfl

/-- The history after an answer. -/
theorem answered_history (name : Name) (event : Event sig) (rest : Program sig α) (here : State) :
    (pool.answered name event rest here).history = pool.history ++ [(name, event)] := rfl

/-- The program that was answered goes on. -/
theorem answered_program_self (name : Name) (event : Event sig) (rest : Program sig α)
    (here : State) : (pool.answered name event rest here).program name = rest :=
  Function.update_self ..

/-- The others stay where they are. -/
theorem answered_program_other {name other : Name} (different : other ≠ name) (event : Event sig)
    (rest : Program sig α) (here : State) :
    (pool.answered name event rest here).program other = pool.program other :=
  Function.update_of_ne different ..

/-- One of the programs is answered. -/
inductive Step (world : World sig State) :
    Pool sig State Name α → Pool sig State Name α → Prop where
  | answer {pool operation resume response next} (name : Name)
      (pending : pool.program name = .request operation resume)
      (effect : world.Answers pool.state operation response next) :
      Step world pool (pool.answered name ⟨operation, response⟩ (resume response) next)

/-- Any number of answers. -/
abbrev Steps (world : World sig State) :
    Pool sig State Name α → Pool sig State Name α → Prop :=
  Relation.ReflTransGen (Step world)

/-- An execution of one program is a run of the pool, in which the others wait. -/
theorem steps_of_reaches (name : Name) {remainder : Program sig α} {events : List (Event sig)}
    {final : State}
    (reaches : Reaches world (pool.program name) pool.state events remainder final) :
    Steps world pool
      { state := final
        program := Function.update pool.program name remainder
        history := pool.history ++ events.map (name, ·) } := by
  generalize isProgram : pool.program name = program at reaches
  generalize isState : pool.state = state at reaches
  induction reaches generalizing pool with
  | refl =>
      obtain ⟨here, programs, history⟩ := pool
      obtain rfl : here = _ := isState
      obtain rfl : programs name = _ := isProgram
      rw [Function.update_eq_self, List.map_nil, List.append_nil]
  | @step operation resume _ response next events _ _ answer _ ih =>
      subst isState
      have first := Step.answer name isProgram answer
      have rest := @ih (pool.answered name ⟨operation, response⟩ (resume response) next)
        (answered_program_self ..) rfl
      rw [answered_program, Function.update_idem, answered_history, List.append_assoc] at rest
      exact .head first rest

/-- An answer to one program keeps them all steady. -/
theorem IsSteady.step (stable : ∀ name, protocol.IsStable name (Post name))
    (isSteady : pool.IsSteady world protocol Post) (step : Step world pool next) :
    next.IsSteady world protocol Post := by
  cases step with
  | answer name pending effect =>
      have here := isSteady.steady name
      rw [pending] at here
      obtain ⟨grows, kept, rest⟩ :=
        here pool.history pool.state _ _ (.refl ..) (protocol.growsRefl _) isSteady.inv effect
      refine ⟨kept, fun other => ?_⟩
      by_cases same : other = name
      · subst same
        rw [answered_program_self]
        exact rest
      · rw [answered_program_other same]
        exact (isSteady.steady other).others (stable other) (.answer (Ne.symm same) ..) grows

/-- So does every interleaving. -/
theorem IsSteady.steps (stable : ∀ name, protocol.IsStable name (Post name))
    (isSteady : pool.IsSteady world protocol Post) (steps : Steps world pool next) :
    next.IsSteady world protocol Post := by
  induction steps with
  | refl => exact isSteady
  | tail _ step ih => exact ih.step stable step

end Pool

end Effect
