import AltairRs.Wf.Patterns
import AltairRs.Wf.Trace

/-!
# Calls in flight

What the cap of a pattern means while it runs. In any world, and at every cut of a
run, no more calls are outstanding than the cap allows; and whenever the pattern
waits, it waits with as many calls in flight as the cap and the inputs allow.
-/

namespace AltairRs.Wf

open Effect

variable {I O : Type}

/-- A trace that calls the jobs in order, each once, delivers only what it called, has
at most `cap` calls outstanding, and never waits with fewer than it could have. -/
structure Capped (cap : Nat) (jobs : List (Job I)) (events : List (Event (taskSignature I O))) :
    Prop where
  called : dispatched events <+: jobs
  delivered : List.Subperm (completed events) (dispatched events)
  outstanding : (dispatched events).length ≤ (completed events).length + cap
  busy : ∀ before inFlight ready after, events = before ++ ⟨.await inFlight, ready⟩ :: after →
    inFlight.length = min cap (jobs.length - (completed before).length)

/-- What holds of every wait of a trace, and of one more event, holds of the longer
trace. -/
theorem waits_snoc {P : List (Event (taskSignature I O)) → List (Job I) → Prop}
    {events : List (Event (taskSignature I O))} {event : Event (taskSignature I O)}
    (earlier : ∀ before inFlight ready after,
      events = before ++ ⟨.await inFlight, ready⟩ :: after → P before inFlight)
    (now : ∀ inFlight ready, event = ⟨.await inFlight, ready⟩ → P events inFlight) :
    ∀ before inFlight ready after,
      events ++ [event] = before ++ ⟨.await inFlight, ready⟩ :: after → P before inFlight := by
  intro before inFlight ready after split
  rcases List.eq_nil_or_concat after with rfl | ⟨middle, last, rfl⟩
  · obtain ⟨rfl, sameLast⟩ := List.append_inj' split rfl
    exact now inFlight ready (List.head_eq_of_cons_eq sameLast)
  · have regroup :
        events ++ [event] = (before ++ ⟨.await inFlight, ready⟩ :: middle) ++ [last] := by
      simpa using split
    exact earlier before inFlight ready middle (List.append_inj' regroup rfl).1

/-- The promise of a capped pattern at every cut. -/
abbrev capped (cap : Nat) (jobs : List (Job I)) (State : Type) :
    Contract (taskSignature I O) State where
  Inv history _ := Capped cap jobs history

/-- Where a trace stands: what is left to call, and what it has called and not seen
the end of. -/
structure Standing (cap : Nat) (jobs pending inFlight : List (Job I))
    (events : List (Event (taskSignature I O))) : Prop where
  kept : Capped cap jobs events
  left : dispatched events ++ pending = jobs
  open_calls : (dispatched events).Perm (completed events ++ inFlight)
  room : inFlight.length ≤ cap

namespace Standing

variable {cap : Nat} {jobs pending inFlight : List (Job I)} {job : Job I}
  {events : List (Event (taskSignature I O))}

/-- At first nothing is in flight. -/
theorem start (cap : Nat) (jobs : List (Job I)) :
    Standing cap jobs jobs [] ([] : List (Event (taskSignature I O))) where
  kept := ⟨List.nil_prefix, List.Subperm.refl _, Nat.zero_le _, by simp⟩
  left := rfl
  open_calls := .refl _
  room := Nat.zero_le _

/-- Every job is pending, in flight, or done. -/
theorem count (standing : Standing cap jobs pending inFlight events) :
    jobs.length = (completed events).length + inFlight.length + pending.length := by
  have isLeft := congrArg List.length standing.left
  have isOpen := standing.open_calls.length_eq
  simp only [List.length_append] at isLeft isOpen
  omega

/-- Calling the next job puts it in flight. -/
theorem dispatch (standing : Standing cap jobs (job :: pending) inFlight events)
    (hasRoom : inFlight.length < cap) (response : Unit) :
    Standing cap jobs pending (inFlight ++ [job]) (events ++ [⟨.dispatch job, response⟩]) := by
  have isLeft : dispatched (events ++ [⟨.dispatch job, response⟩]) ++ pending = jobs := by
    simpa using standing.left
  have isOpen : (dispatched (events ++ [⟨.dispatch job, response⟩])).Perm
      (completed (events ++ [⟨.dispatch job, response⟩]) ++ (inFlight ++ [job])) := by
    simpa [← List.append_assoc] using standing.open_calls.append_right [job]
  refine ⟨⟨⟨pending, isLeft⟩, ?_, ?_, ?_⟩, isLeft, isOpen, ?_⟩
  · exact (List.sublist_append_left _ _).subperm.trans isOpen.symm.subperm
  · have isLength := isOpen.length_eq
    simp only [List.length_append, List.length_singleton] at isLength ⊢
    omega
  · exact waits_snoc standing.kept.busy nofun
  · rw [List.length_append]
    exact hasRoom

/-- Waiting for a full set takes one call out of flight. -/
theorem await (standing : Standing cap jobs pending inFlight events)
    (full : pending = [] ∨ cap ≤ inFlight.length) (ready : Fin inFlight.length × Result O) :
    Standing cap jobs pending (inFlight.eraseIdx ready.1)
      (events ++ [⟨.await inFlight, ready⟩]) := by
  have isOpen : (dispatched (events ++ [⟨.await inFlight, ready⟩])).Perm
      (completed (events ++ [⟨.await inFlight, ready⟩]) ++ inFlight.eraseIdx ready.1) := by
    have taken := (List.getElem_cons_eraseIdx_perm ready.1.isLt).symm
    simpa using standing.open_calls.trans (taken.append_left (completed events))
  have isLeft : dispatched (events ++ [⟨.await inFlight, ready⟩]) ++ pending = jobs := by
    simpa using standing.left
  refine ⟨⟨⟨pending, isLeft⟩, ?_, ?_, ?_⟩, isLeft, isOpen, ?_⟩
  · exact (List.sublist_append_left _ _).subperm.trans isOpen.symm.subperm
  · have before := standing.kept.outstanding
    simp only [dispatched_append, dispatched_await, completed_append, completed_await,
      List.length_append, List.length_singleton, List.append_nil]
    omega
  · refine waits_snoc standing.kept.busy fun waiting other isLast => ?_
    cases isLast
    have isCount := standing.count
    have hasRoom := standing.room
    rcases full with rfl | isFull
    · rw [List.length_nil] at isCount
      omega
    · omega
  · have hasRoom := standing.room
    have isErased := List.length_eraseIdx_le inFlight ready.1
    omega

end Standing

variable {State : Type} {world : World (taskSignature I O) State} {cap : Nat}
  {jobs pending inFlight : List (Job I)} {job : Job I}
  {history : List (Event (taskSignature I O))} {state : State}

/-- Nothing has been called. -/
theorem Capped.nil (cap : Nat) (jobs : List (Job I)) :
    Capped cap jobs ([] : List (Event (taskSignature I O))) :=
  (Standing.start cap jobs).kept

variable [TaskOutput O]

variable [TaskInput I]

end AltairRs.Wf
