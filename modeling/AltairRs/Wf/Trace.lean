import AltairRs.Wf.Dispatch

/-!
# Traces of task programs

What a trace says about the calls of a pattern: which inputs were dispatched,
in which order, and which of the calls had completed.
-/

namespace AltairRs.Wf

open Effect

variable {I O : Type}

/-- The call an event makes. -/
def dispatchOf : Event (taskSignature I O) → Option (Job I)
  | ⟨.dispatch job, _⟩ => some job
  | ⟨.await _, _⟩ => none

/-- The call whose outcome an event delivers. -/
def deliveryOf : Event (taskSignature I O) → Option (Job I)
  | ⟨.dispatch _, _⟩ => none
  | ⟨.await inFlight, ready⟩ => some (inFlight.get ready.1)

/-- The calls of a trace, in order. -/
def dispatched (events : List (Event (taskSignature I O))) : List (Job I) :=
  events.filterMap dispatchOf

/-- The calls of a trace that have completed, in completion order. -/
def completed (events : List (Event (taskSignature I O))) : List (Job I) :=
  events.filterMap deliveryOf

@[simp] theorem dispatched_nil : dispatched ([] : List (Event (taskSignature I O))) = [] := rfl

@[simp] theorem completed_nil : completed ([] : List (Event (taskSignature I O))) = [] := rfl

@[simp] theorem dispatched_append (events later : List (Event (taskSignature I O))) :
    dispatched (events ++ later) = dispatched events ++ dispatched later :=
  List.filterMap_append

@[simp] theorem completed_append (events later : List (Event (taskSignature I O))) :
    completed (events ++ later) = completed events ++ completed later :=
  List.filterMap_append

@[simp] theorem dispatched_dispatch (job : Job I) (response : Unit) :
    dispatched [(⟨.dispatch job, response⟩ : Event (taskSignature I O))] = [job] := rfl

@[simp] theorem completed_dispatch (job : Job I) (response : Unit) :
    completed [(⟨.dispatch job, response⟩ : Event (taskSignature I O))] = [] := rfl

@[simp] theorem dispatched_await (inFlight : List (Job I))
    (ready : Fin inFlight.length × Result O) :
    dispatched [(⟨.await inFlight, ready⟩ : Event (taskSignature I O))] = [] := rfl

@[simp] theorem completed_await (inFlight : List (Job I))
    (ready : Fin inFlight.length × Result O) :
    completed [(⟨.await inFlight, ready⟩ : Event (taskSignature I O))] = [inFlight.get ready.1] :=
  rfl

end AltairRs.Wf
