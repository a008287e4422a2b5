import AltairRs.Effect.Program

/-!
# Operations implemented by programs

An `Expansion` implements every operation of a signature by a program over another
one. Its executions are those of the program it expands, in any world that says
what an implementation may do: when it returns, an answer; when it is cut, nothing
yet or an answer that nobody has read.
-/

namespace Effect

universe u v w

/-- The operations of one signature, each as a program over another. -/
abbrev Expansion (source target : Signature.{u}) :=
  (request : source.Op) → Program target (source.Response request)

variable {source target : Signature.{u}} {State : Type v} {Shown : Type w} {α β : Type u}

namespace Expansion

/-- Put the implementation of every request in its place. -/
def expand (expansion : Expansion source target) : Program source α → Program target α
  | .done value => .done value
  | .request request resume =>
      expansion request >>= fun response => expansion.expand (resume response)

@[simp] theorem expand_done (expansion : Expansion source target) (value : α) :
    expansion.expand (.done value) = .done value := rfl

/-- A sequence is expanded part by part. -/
theorem expand_bind (expansion : Expansion source target) (program : Program source α)
    (next : α → Program source β) :
    expansion.expand (program >>= next) =
      expansion.expand program >>= fun value => expansion.expand (next value) := by
  induction program with
  | done value => rfl
  | request request resume ih =>
      have branches : (fun response => expansion.expand (resume response >>= next)) =
          fun response => expansion.expand (resume response) >>= fun value =>
            expansion.expand (next value) := funext ih
      change expansion request >>= (fun response => expansion.expand (resume response >>= next)) = _
      rw [branches]
      exact (Program.bind_assoc ..).symm

/-- Every implementation does what the shown world allows of its operation. A cut
one has done nothing that shows, or all of it. -/
structure Implements (expansion : Expansion source target) (world : World target State)
    (shown : World source Shown) (project : State → Shown) : Prop where
  whole : ∀ {request state events response final},
    Returns world (expansion request) state events response final →
      shown.Answers (project state) request response (project final)
  cut : ∀ {request state events remainder final},
    Reaches world (expansion request) state events remainder final →
      project final = project state ∨
        ∃ response, shown.Answers (project state) request response (project final)

variable {expansion : Expansion source target} {world : World target State}
  {shown : World source Shown} {project : State → Shown}

/-- An execution of the expansion shows one of the program, with the same value
when it returns. -/
theorem Implements.reaches (implements : expansion.Implements world shown project)
    {program : Program source α} {remainder : Program target α} {state final : State}
    {events : List (Event target)}
    (reaches : Reaches world (expansion.expand program) state events remainder final) :
    ∃ history left, Reaches shown program (project state) history left (project final) ∧
      ∀ value, remainder = .done value → left = .done value := by
  induction program generalizing state events with
  | done value =>
      obtain ⟨rfl, rfl, rfl⟩ := reaches.of_done
      refine ⟨[], _, .refl, ?_⟩
      rintro _ ⟨⟩
      rfl
  | request request resume ih =>
      rcases Reaches.of_bind_cut reaches with ⟨left, inside, rfl⟩ |
        ⟨before, response, here, after, rfl, run, later⟩
      · -- A return inside is the start of the rest, which goes on from the answer.
        cases left with
        | done response =>
            have here : Reaches world (expansion.expand (resume response)) final [] _ final := .refl
            obtain ⟨history, rest, goesOn, same⟩ := ih response here
            exact ⟨_, rest, .step (implements.whole inside) goesOn, same⟩
        | request operation onward =>
            rcases implements.cut inside with unchanged | ⟨response, answer⟩
            · rw [unchanged]
              exact ⟨[], _, .refl, nofun⟩
            · exact ⟨_, _, .step answer .refl, nofun⟩
      · obtain ⟨history, rest, goesOn, same⟩ := ih response later
        exact ⟨_, rest, .step (implements.whole run) goesOn, same⟩

/-- The expansions of a family of programs. -/
def Expands (expansion : Expansion source target) (family : Program source α → Prop)
    (program : Program target α) : Prop :=
  ∃ plain, family plain ∧ program = expansion.expand plain

/-- Successive executions of expansions, each cut anywhere, show executions of the
programs they expand. -/
theorem Implements.executions (implements : expansion.Implements world shown project)
    {family : Program source α → Prop} {initial final : State} {events : List (Event target)}
    (executions : Executions world (expansion.Expands family) initial events final) :
    ∃ history, Executions shown family (project initial) history (project final) := by
  induction executions with
  | nil => exact ⟨[], .nil⟩
  | snoc _ member execution ih =>
      obtain ⟨history, prior⟩ := ih
      obtain ⟨plain, isPlain, rfl⟩ := member
      obtain ⟨more, _, reaches, _⟩ := implements.reaches execution
      exact ⟨history ++ more, .snoc prior isPlain reaches⟩

end Expansion

end Effect
