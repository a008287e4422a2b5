import AltairRs.Effect.Pool

/-!
# Calls that take place in one step

A call may make several requests of a server that others use as well. It is atomic for an
effect if each of its requests leaves the state or takes place as that effect, and if one of
them has taken place when the call reports so. Whatever the interleaving, the state is then
what the effects leave one after another, in the order in which the requests took place. That
order is part of the history: calls that do not overlap keep theirs.
-/

namespace Effect

universe u v w

variable {sig : Signature.{u}} {State : Type v} {Name : Type w} {α : Type u}

/-- Effects one after another, with the names of those whose they are. -/
inductive Serial (effect : Name → State → State → Prop) : State → List Name → State → Prop where
  | nil {state} : Serial effect state [] state
  | snoc {start middle final order name} (before : Serial effect start order middle)
      (takesPlace : effect name middle final) : Serial effect start (order ++ [name]) final

/-- Each request leaves the state or takes place as the effect, and it has taken place when a
value is returned that reports it; `took` says whether it has so far. -/
def Atomic (world : World sig State) (effect : State → State → Prop) (reports : α → Prop) :
    Program sig α → Prop → Prop
  | .done value, took => reports value → took
  | .request operation resume, took =>
      ∀ here response next, world.Answers here operation response next →
        next = here ∧ Atomic world effect reports (resume response) took ∨
          effect here next ∧ Atomic world effect reports (resume response) True

namespace Atomic

variable {world : World sig State} {effect : State → State → Prop} {reports : α → Prop}
  {program : Program sig α} {took : Prop}

/-- More may have taken place, and less may be reported. -/
theorem mono {tookMore : Prop} {reportsLess : α → Prop}
    (atomic : Atomic world effect reports program took) (more : took → tookMore)
    (less : ∀ value, reportsLess value → reports value) :
    Atomic world effect reportsLess program tookMore := by
  induction program generalizing took tookMore with
  | done value => exact fun reported => more (atomic (less value reported))
  | request operation resume ih =>
      intro here response next answer
      rcases atomic here response next answer with ⟨same, rest⟩ | ⟨takesPlace, rest⟩
      · exact .inl ⟨same, ih response rest more⟩
      · exact .inr ⟨takesPlace, ih response rest id⟩

end Atomic

namespace Pool

variable {world : World sig State} {effect : Name → State → State → Prop}
  {reports : Name → α → Prop} {start : State} {pool next : Pool sig State Name α}

/-- The effects of this order, which the history has, have led here; each program is atomic
with what it has in it. -/
structure IsLinear (world : World sig State) (effect : Name → State → State → Prop)
    (reports : Name → α → Prop) (start : State) (pool : Pool sig State Name α)
    (order : List Name) : Prop where
  serial : Serial effect start order pool.state
  inHistory : order.Sublist (pool.history.map Prod.fst)
  atomic : ∀ name,
    Atomic world (effect name) (reports name) (pool.program name) (name ∈ order)

variable [DecidableEq Name] {order : List Name}

/-- A step stays linear, with one more change in the order or not. -/
theorem IsLinear.step (linear : pool.IsLinear world effect reports start order)
    (step : Step world pool next) : ∃ order, next.IsLinear world effect reports start order := by
  cases step with
  | answer name pending answer =>
      rename_i operation resume response state
      have here := linear.atomic name
      rw [pending] at here
      have names : ((pool.answered name ⟨operation, response⟩ (resume response) state).history.map
          Prod.fst) = pool.history.map Prod.fst ++ [name] := List.map_append
      rcases here _ response _ answer with ⟨rfl, rest⟩ | ⟨takesPlace, rest⟩
      · refine ⟨order, linear.serial, ?_, fun other => ?_⟩
        · rw [names]
          exact linear.inHistory.trans (List.sublist_append_left ..)
        · by_cases same : other = name
          · subst same
            rwa [answered_program_self]
          · rw [answered_program_other same]
            exact linear.atomic other
      · refine ⟨order ++ [name], linear.serial.snoc takesPlace, ?_, fun other => ?_⟩
        · rw [names]
          exact linear.inHistory.append_right _
        · by_cases same : other = name
          · subst same
            rw [answered_program_self]
            exact rest.mono (fun _ => List.mem_append_right _ List.mem_cons_self) fun _ => id
          · rw [answered_program_other same]
            exact (linear.atomic other).mono (List.mem_append_left _) fun _ => id

/-- Atomic calls are linearizable: in every interleaving their effects have led to the state
in an order of the history, in which every call has its place that reports one. -/
theorem linearizable {program : Name → Program sig α}
    (atomic : ∀ name, Atomic world (effect name) (reports name) (program name) False)
    (steps : Steps world (.start start program) pool) :
    ∃ order, Serial effect start order pool.state ∧
      order.Sublist (pool.history.map Prod.fst) ∧
      ∀ name value, pool.program name = .done value → reports name value → name ∈ order := by
  have linear : ∃ order, pool.IsLinear world effect reports start order := by
    induction steps with
    | refl =>
        exact ⟨[], .nil, List.nil_sublist _, fun name => (atomic name).mono False.elim fun _ => id⟩
    | tail _ step ih =>
        obtain ⟨order, linear⟩ := ih
        exact linear.step step
  obtain ⟨order, serial, inHistory, atomicNow⟩ := linear
  refine ⟨order, serial, inHistory, fun name value done reported => ?_⟩
  have here := atomicNow name
  rw [done] at here
  exact here reported

end Pool

end Effect
