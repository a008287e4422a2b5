import AltairRs.Effect.Program

/-!
# Request policies

`Requests` restricts the operations a program may ask for on any of its
branches, and `Yields` the values it may return on them. Both are properties of the
program alone, so they hold of its executions in every world.
-/

namespace Effect

universe u v

variable {sig : Signature.{u}} {State : Type v} {α β : Type u} {allowed : sig.Op → Prop}

/-- Whatever the responses, the program requests allowed operations only. -/
def Requests (allowed : sig.Op → Prop) : Program sig α → Prop
  | .done _ => True
  | .request operation resume =>
      allowed operation ∧ ∀ response, Requests allowed (resume response)

namespace Requests

/-- One operation that is allowed. -/
theorem perform {operation : sig.Op} (permitted : allowed operation) :
    Requests allowed (Program.perform sig operation) :=
  ⟨permitted, fun _ => trivial⟩

/-- A sequence keeps the policy its parts keep. -/
theorem bind {program : Program sig α} {next : α → Program sig β}
    (first : Requests allowed program) (second : ∀ value, Requests allowed (next value)) :
    Requests allowed (program >>= next) := by
  induction program with
  | done value => exact second value
  | request operation resume ih =>
      exact ⟨first.1, fun response => ih response (first.2 response)⟩

/-- Every answered request of every execution was allowed. -/
theorem of_reaches {world : World sig State} {program remainder : Program sig α}
    {events : List (Event sig)} {state final : State} (requests : Requests allowed program)
    (execution : Reaches world program state events remainder final) :
    ∀ event ∈ events, allowed event.operation := by
  induction execution with
  | refl => exact nofun
  | step _ _ ih =>
      intro event member
      rcases List.mem_cons.mp member with rfl | later
      · exact requests.1
      · exact ih (requests.2 _) event later

/-- What every allowed answer preserves holds at every cut. -/
theorem preserves {world : World sig State} {invariant : State → Prop}
    {program remainder : Program sig α} {events : List (Event sig)} {state final : State}
    (requests : Requests allowed program)
    (step : ∀ here operation response next, allowed operation → invariant here →
      world.Answers here operation response next → invariant next)
    (execution : Reaches world program state events remainder final) (start : invariant state) :
    invariant final := by
  induction execution with
  | refl => exact start
  | step answer _ ih =>
      exact ih (requests.2 _) (step _ _ _ _ requests.1 start answer)

/-- What every allowed answer preserves is a contract the program is safe with. -/
theorem safe {world : World sig State} {invariant : State → Prop} {program : Program sig α}
    {history : List (Event sig)} {state : State} (requests : Requests allowed program)
    (step : ∀ here operation response next, allowed operation → invariant here →
      world.Answers here operation response next → invariant next) (start : invariant state) :
    Safe world { Inv := fun _ here => invariant here } (fun _ _ _ => True) program history
      state := by
  induction program generalizing history state with
  | done value => exact ⟨start, trivial⟩
  | request operation resume ih =>
      exact ⟨start, fun response next answer =>
        ⟨trivial, ih response (requests.2 response) (step _ _ _ _ requests.1 start answer)⟩⟩

/-- Handlers that answer the allowed operations alike, as seen through a projection and while
an invariant is kept, give the same. -/
theorem gives_through {State Other : Type u} {handler : Handler sig State}
    {other : Handler sig Other} {project : Other → State} {invariant : Other → Prop}
    {program : Program sig α} {here : Other} {value : α} {final : State}
    (requests : Requests allowed program)
    (agree : ∀ here operation, allowed operation → invariant here →
      (other here operation).1 = (handler (project here) operation).1 ∧
        project (other here operation).2 = (handler (project here) operation).2 ∧
        invariant (other here operation).2)
    (start : invariant here) (gives : handler.Gives program (project here) value final) :
    ∃ last, other.Gives program here value last ∧ project last = final := by
  induction program generalizing here with
  | done result =>
      obtain ⟨isValue, isState⟩ := gives
      exact ⟨here, ⟨isValue, rfl⟩, isState⟩
  | request operation resume ih =>
      obtain ⟨sameResponse, sameState, kept⟩ := agree here operation requests.1 start
      obtain ⟨isValue, isState⟩ := gives
      simp only [Handler.eval, ← sameResponse, ← sameState] at isValue isState
      obtain ⟨last, ⟨isLastValue, isLast⟩, isFinal⟩ :=
        ih _ (requests.2 _) kept ⟨isValue, isState⟩
      exact ⟨last, ⟨isLastValue, isLast⟩, isFinal⟩

/-- Handlers that answer the allowed operations alike are not told apart. -/
theorem gives {State : Type u} {handler other : Handler sig State} {program : Program sig α}
    {state final : State} {value : α} (requests : Requests allowed program)
    (agree : ∀ here operation, allowed operation → other here operation = handler here operation)
    (gives : handler.Gives program state value final) : other.Gives program state value final := by
  have alike : ∀ here operation, allowed operation → True →
      (other here operation).1 = (handler (id here) operation).1 ∧
        id (other here operation).2 = (handler (id here) operation).2 ∧ True := by
    intro here operation permitted _
    rw [agree here operation permitted]
    exact ⟨rfl, rfl, trivial⟩
  obtain ⟨_, given, rfl⟩ := requests.gives_through alike trivial gives
  exact given

end Requests

/-- Whatever the responses, the program returns values of this kind only. -/
def Yields (kind : α → Prop) : Program sig α → Prop
  | .done value => kind value
  | .request _ resume => ∀ response, Yields kind (resume response)

namespace Yields

variable {kind : α → Prop}

/-- A sequence yields what its last part does. -/
theorem bind {kind : β → Prop} {first : α → Prop} {program : Program sig α}
    {next : α → Program sig β} (yields : Yields first program)
    (onward : ∀ value, first value → Yields kind (next value)) :
    Yields kind (program >>= next) := by
  induction program with
  | done value => exact onward value yields
  | request operation resume ih => exact fun response => ih response (yields response)

/-- After any response, a sequence goes on as its second part does. -/
theorem seq {kind : β → Prop} {program : Program sig α} {next : α → Program sig β}
    (onward : ∀ value, Yields kind (next value)) : Yields kind (program >>= next) := by
  induction program with
  | done value => exact onward value
  | request operation resume ih => exact fun response => ih response

/-- What agrees on the values a program returns may be put behind it. -/
theorem map_congr {program : Program sig α} (yields : Yields kind program) {f g : α → β}
    (agree : ∀ value, kind value → f value = g value) : f <$> program = g <$> program := by
  induction program with
  | done value => exact congrArg Program.done (agree value yields)
  | request operation resume ih =>
      have branches : ∀ response, f <$> resume response = g <$> resume response :=
        fun response => ih response (yields response)
      exact congrArg (Program.request operation) (funext branches)

end Yields

end Effect
