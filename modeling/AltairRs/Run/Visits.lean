/-!
# Runs that keep their states

A run of labelled steps, as the list of its visits: every visit has the state before
it, its label and the state after it. What holds of a run can so be said of the labels
and of the states alike, wherever the run is cut.
-/

namespace Run

universe u v

/-- One step of a run. -/
structure Visit (State : Type u) (Label : Type v) where
  before : State
  label : Label
  after : State

variable {State : Type u} {Label : Type v} {Step : State → Label → State → Prop}

/-- Successive steps. -/
inductive Visits (Step : State → Label → State → Prop) :
    State → List (Visit State Label) → State → Prop where
  | nil {state} : Visits Step state [] state
  | cons {before label after rest final} (step : Step before label after)
      (next : Visits Step after rest final) :
      Visits Step before (⟨before, label, after⟩ :: rest) final

namespace Visits

variable {start middle final : State} {first second visits : List (Visit State Label)}
  {visit : Visit State Label}

/-- A run is taken apart anywhere. -/
theorem of_append (run : Visits Step start (first ++ second) final) :
    ∃ middle, Visits Step start first middle ∧ Visits Step middle second final := by
  induction first generalizing start with
  | nil => exact ⟨start, .nil, run⟩
  | cons visit rest ih =>
      cases run with
      | cons step next =>
          obtain ⟨middle, before, after⟩ := ih next
          exact ⟨middle, .cons step before, after⟩

/-- Every visit of a run is a step. -/
theorem step_of_mem (run : Visits Step start visits final) {visit : Visit State Label}
    (member : visit ∈ visits) : Step visit.before visit.label visit.after := by
  induction run with
  | nil => cases member
  | cons step _ ih =>
      rcases List.mem_cons.mp member with rfl | later
      · exact step
      · exact ih later

/-- What the steps of permitted visits preserve, a run of them preserves. -/
theorem preserves (invariant : State → Prop) {permitted : Visit State Label → Prop}
    (step : ∀ visit, permitted visit → Step visit.before visit.label visit.after →
      invariant visit.before → invariant visit.after)
    (run : Visits Step start visits final) (all : ∀ visit ∈ visits, permitted visit)
    (holds : invariant start) : invariant final := by
  induction run with
  | nil => exact holds
  | cons isStep _ ih =>
      obtain ⟨now, later⟩ := List.forall_mem_cons.mp all
      exact ih later (step _ now isStep holds)

/-- And it holds around every visit. -/
theorem preserves_at (invariant : State → Prop) {permitted : Visit State Label → Prop}
    (step : ∀ visit, permitted visit → Step visit.before visit.label visit.after →
      invariant visit.before → invariant visit.after)
    (run : Visits Step start visits final) (all : ∀ visit ∈ visits, permitted visit)
    (holds : invariant start) :
    ∀ visit ∈ visits, invariant visit.before ∧ invariant visit.after := by
  induction run with
  | nil => exact nofun
  | cons isStep _ ih =>
      obtain ⟨now, later⟩ := List.forall_mem_cons.mp all
      have next := step _ now isStep holds
      exact List.forall_mem_cons.mpr ⟨⟨holds, next⟩, ih later next⟩

/-- What the steps preserve of the labels so far and the state, a run preserves. -/
theorem preserves_history (invariant : List Label → State → Prop)
    (step : ∀ {history before label after}, Step before label after → invariant history before →
      invariant (history ++ [label]) after)
    (run : Visits Step start visits final) {history : List Label}
    (holds : invariant history start) : invariant (history ++ visits.map Visit.label) final := by
  induction run generalizing history with
  | nil =>
      rw [List.map_nil, List.append_nil]
      exact holds
  | cons isStep _ ih =>
      have later := ih (step isStep holds)
      rwa [List.append_assoc] at later

/-- And it holds before every visit, of the labels before it. -/
theorem history_at (invariant : List Label → State → Prop)
    (step : ∀ {history before label after}, Step before label after → invariant history before →
      invariant (history ++ [label]) after)
    (run : Visits Step start (first ++ visit :: second) final) (holds : invariant [] start) :
    Step visit.before visit.label visit.after ∧
      invariant (first.map Visit.label) visit.before := by
  obtain ⟨middle, before, here⟩ := run.of_append
  cases here with
  | cons isStep _ => exact ⟨isStep, preserves_history invariant step before holds⟩

end Visits

end Run
