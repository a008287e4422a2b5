import Mathlib.Data.List.Forall2
import AltairRs.Effect.Program

/-!
# The same program over other operations

A `Translation` renames the operations of a signature into another one and reads
the answers back. A world that answers the renamed operations alike runs the
renamed program alike: through the same states, to the same value, with a trace
that shows the same answered requests.
-/

namespace Effect

universe u v

/-- Operations of one signature by way of another. -/
structure Translation (source target : Signature.{u}) where
  operation : source.Op → target.Op
  response : (request : source.Op) → target.Response (operation request) →
    source.Response request

variable {source target : Signature.{u}} {State : Type v} {α β : Type u}

namespace Translation

/-- The answered request of the source that one of the target stands for. -/
inductive Shows (translation : Translation source target) : Event source → Event target → Prop where
  | intro (request : source.Op) (answer : target.Response (translation.operation request)) :
      Shows translation ⟨request, translation.response request answer⟩
        ⟨translation.operation request, answer⟩

/-- Rename every request of a program, and read every answer back. -/
def translate (translation : Translation source target) : Program source α → Program target α
  | .done value => .done value
  | .request request resume =>
      .request (translation.operation request) fun answer =>
        translation.translate (resume (translation.response request answer))

@[simp] theorem translate_done (translation : Translation source target) (value : α) :
    translation.translate (.done value) = .done value := rfl

@[simp] theorem translate_bind (translation : Translation source target)
    (program : Program source α) (next : α → Program source β) :
    translation.translate (program >>= next) =
      translation.translate program >>= fun value => translation.translate (next value) := by
  induction program with
  | done value => rfl
  | request operation resume ih =>
      simp only [Program.request_bind, translate, ih]

/-- Two worlds answer alike, up to how the answers are read. -/
def Agrees (translation : Translation source target) (world : World source State)
    (other : World target State) : Prop :=
  ∀ state request response next, world.Answers state request response next ↔
    ∃ answer, other.Answers state (translation.operation request) answer next ∧
      translation.response request answer = response

variable {translation : Translation source target} {world : World source State}
  {other : World target State} {program : Program source α} {state final : State} {value : α}

/-- A run of the program is one of its renaming. -/
theorem Agrees.translated (agrees : translation.Agrees world other) {events : List (Event source)}
    (run : Returns world program state events value final) :
    ∃ shown, Returns other (translation.translate program) state shown value final ∧
      List.Forall₂ translation.Shows events shown := by
  induction program generalizing state events with
  | done result =>
      obtain ⟨rfl, isValue, rfl⟩ := run.of_done
      cases isValue
      exact ⟨[], .refl, .nil⟩
  | request request resume ih =>
      cases run with
      | step answered rest =>
          obtain ⟨answer, otherAnswered, rfl⟩ := (agrees _ _ _ _).mp answered
          obtain ⟨shown, otherRest, shows⟩ := ih _ rest
          exact ⟨_ :: shown, .step otherAnswered otherRest, .cons (.intro request answer) shows⟩

/-- A run of the renaming is one of the program. -/
theorem Agrees.of_translated (agrees : translation.Agrees world other)
    {shown : List (Event target)}
    (run : Returns other (translation.translate program) state shown value final) :
    ∃ events, Returns world program state events value final ∧
      List.Forall₂ translation.Shows events shown := by
  induction program generalizing state shown with
  | done result =>
      obtain ⟨rfl, isValue, rfl⟩ := run.of_done
      cases isValue
      exact ⟨[], .refl, .nil⟩
  | request request resume ih =>
      cases run with
      | step otherAnswered otherRest =>
          obtain ⟨events, rest, shows⟩ := ih _ otherRest
          exact ⟨_ :: events, .step ((agrees _ _ _ _).mpr ⟨_, otherAnswered, rfl⟩) rest,
            .cons (.intro request _) shows⟩

end Translation

end Effect
