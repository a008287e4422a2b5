import AltairRs.Effect.Program

/-!
# Total correctness under any scheduler

`Settles` is the demonic counterpart of `Safe`: the environment may pick any of
its answers, but never runs out of them, so every execution goes on until the
program returns, and what it returns satisfies the postcondition. Programs are
finite trees, so an execution that is never stuck ends.
-/

namespace Effect

universe u v

variable {sig : Signature.{u}} {State : Type v} {α β : Type u} {world : World sig State}

/-- Whatever the world answers, the program runs to a return satisfying `Post`. -/
def Settles (world : World sig State) (Post : α → State → Prop) :
    Program sig α → State → Prop
  | .done value, state => Post value state
  | .request operation resume, state =>
      (∃ response next, world.Answers state operation response next) ∧
        ∀ response next, world.Answers state operation response next →
          Settles world Post (resume response) next

namespace Settles

variable {Post : α → State → Prop}

/-- Weaken a postcondition. -/
theorem mono {program : Program sig α} {Last : α → State → Prop} {state : State}
    (settles : Settles world Post program state)
    (weaken : ∀ value state, Post value state → Last value state) :
    Settles world Last program state := by
  induction program generalizing state with
  | done value => exact weaken _ _ settles
  | request operation resume ih =>
      exact ⟨settles.1, fun response next answer => ih response (settles.2 response next answer)⟩

/-- Sequencing: the first program settles where the second one does. -/
theorem bind {program : Program sig α} {next : α → Program sig β} {Last : β → State → Prop}
    {state : State}
    (settles : Settles world (fun value state => Settles world Last (next value) state)
      program state) :
    Settles world Last (program >>= next) state := by
  induction program generalizing state with
  | done value => exact settles
  | request operation resume ih =>
      exact ⟨settles.1, fun response here answer => ih response (settles.2 response here answer)⟩

/-- Sequencing, from what the first program settles to. -/
theorem seq {program : Program sig α} {next : α → Program sig β} {Last : β → State → Prop}
    {state : State} (first : Settles world Post program state)
    (second : ∀ value state, Post value state → Settles world Last (next value) state) :
    Settles world Last (program >>= next) state :=
  bind (first.mono second)

/-- Whatever an execution has reached settles too. -/
theorem reaches {program remainder : Program sig α} {events : List (Event sig)}
    {state final : State} (settles : Settles world Post program state)
    (execution : Reaches world program state events remainder final) :
    Settles world Post remainder final := by
  induction execution with
  | refl => exact settles
  | step answer _ ih => exact ih (settles.2 _ _ answer)

/-- Every complete execution satisfies the postcondition. -/
theorem post_of_returns {program : Program sig α} {events : List (Event sig)}
    {state final : State} {value : α} (settles : Settles world Post program state)
    (execution : Returns world program state events value final) : Post value final :=
  settles.reaches execution

/-- A program that settles has a complete execution. -/
theorem exists_returns {program : Program sig α} {state : State}
    (settles : Settles world Post program state) :
    ∃ events value final, Returns world program state events value final := by
  induction program generalizing state with
  | done value => exact ⟨[], value, state, .refl⟩
  | request operation resume ih =>
      obtain ⟨response, next, answer⟩ := settles.1
      obtain ⟨events, value, final, rest⟩ := ih response (settles.2 response next answer)
      exact ⟨_ :: events, value, final, .step answer rest⟩

/-- What is safe and settles satisfies both postconditions. -/
theorem safe {program : Program sig α} {contract : Contract sig State}
    {Last : α → List (Event sig) → State → Prop} {history : List (Event sig)} {state : State}
    (settles : Settles world Post program state)
    (safe : Safe world contract Last program history state) :
    Safe world contract (fun value history state => Post value state ∧ Last value history state)
      program history state := by
  induction program generalizing history state with
  | done value => exact ⟨safe.1, settles, safe.2⟩
  | request operation resume ih =>
      refine ⟨safe.1, fun response next answer => ?_⟩
      obtain ⟨grows, rest⟩ := safe.2 response next answer
      exact ⟨grows, ih response (settles.2 response next answer) rest⟩

/-- In a world that never runs out of answers, what is safe settles. -/
theorem of_safe {program : Program sig α} {contract : Contract sig State}
    {Last : α → List (Event sig) → State → Prop} {history : List (Event sig)} {state : State}
    (answers : ∀ state operation, ∃ response next, world.Answers state operation response next)
    (safe : Safe world contract Last program history state) :
    Settles world (fun value final => ∃ history, Last value history final) program state := by
  induction program generalizing history state with
  | done value => exact ⟨history, safe.2⟩
  | request operation resume ih =>
      exact ⟨answers state operation, fun response next answer =>
        ih response (safe.2 response next answer).2⟩

end Settles

end Effect
