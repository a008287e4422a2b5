import AltairRs.Effect.Total
import AltairRs.Wf.Types

/-!
# Calling `execute_one`

The patterns call the caller's closure and await the futures it returns. A call
is the operation `dispatch`; `await` polls the futures in flight until one of
them is ready, and which one is the scheduler's choice. `joinAll` and
`bufferUnordered` are the two combinators the patterns drive futures with.
-/

namespace AltairRs.Wf

open Effect

variable {I O : Type}

/-- One call of the closure: the position of its input and the input. -/
structure Job (I : Type) where
  index : Nat
  input : I
deriving DecidableEq, Repr

/-- Calls to the closure and polls of what it returned. -/
inductive TaskOp (I : Type) where
  | dispatch (job : Job I)
  | await (inFlight : List (Job I))
deriving DecidableEq, Repr

/-- A poll answers which of the futures in flight is ready, and its outcome. -/
abbrev taskSignature (I O : Type) : Signature where
  Op := TaskOp I
  Response
    | .dispatch _ => Unit
    | .await inFlight => Fin inFlight.length × Result O

abbrev TaskProgram (I O α : Type) := Program (taskSignature I O) α

def dispatch (job : Job I) : TaskProgram I O Unit :=
  Program.perform (taskSignature I O) (.dispatch job)

def await (inFlight : List (Job I)) : TaskProgram I O (Fin inFlight.length × Result O) :=
  Program.perform (taskSignature I O) (.await inFlight)

/-- The inputs with their positions, as `enumerate` numbers them. -/
def enumerate (inputs : List I) : List (Job I) :=
  inputs.mapIdx Job.mk

/-- `execute_one(input).await`. -/
def executeOne (job : Job I) : TaskProgram I O (Result O) := do
  dispatch job
  let ready ← await [job]
  return ready.2

/-- An outcome under the position of its input. -/
abbrev Completion (O : Type) := Nat × Result O

/-- Call the closure on every input, in order. -/
def dispatchAll : List (Job I) → TaskProgram I O Unit
  | [] => return ()
  | job :: rest => do
      dispatch job
      dispatchAll rest

/-- Await `waiting` futures; the outcomes come in completion order. -/
def awaitAll : Nat → List (Job I) → TaskProgram I O (List (Completion O))
  | 0, _ => return []
  | waiting + 1, inFlight => do
      let ready ← await inFlight
      let later ← awaitAll waiting (inFlight.eraseIdx ready.1)
      return ((inFlight.get ready.1).index, ready.2) :: later

/-- `join_all` over the calls on these inputs: every future is started up front,
and every outcome is put into the slot of its input. -/
def joinAll (jobs : List (Job I)) : TaskProgram I O (List (Result O)) := do
  dispatchAll jobs
  let completions ← awaitAll jobs.length jobs
  return jobs.filterMap fun job => completions.lookup job.index

/-- Pull pending inputs until `cap` futures are in flight. -/
def fillInFlight (cap : Nat) : List (Job I) → List (Job I) →
    TaskProgram I O (List (Job I) × List (Job I))
  | [], inFlight => return ([], inFlight)
  | job :: pending, inFlight =>
      if inFlight.length < cap then do
        dispatch job
        fillInFlight cap pending (inFlight ++ [job])
      else
        return (job :: pending, inFlight)

/-- `buffer_unordered(cap)` with `waiting` outcomes still to come, which it
yields in completion order. -/
def bufferUnordered (cap : Nat) : Nat → List (Job I) → List (Job I) →
    TaskProgram I O (List (Completion O))
  | 0, _, _ => return []
  | waiting + 1, pending, inFlight => do
      let filled ← fillInFlight cap pending inFlight
      let ready ← await filled.2
      let later ← bufferUnordered cap waiting filled.1 (filled.2.eraseIdx ready.1)
      return (filled.2[ready.1].index, ready.2) :: later

/-- The bounded fan-out: tag with the position, buffer, sort by the tag, strip it. -/
def buffered (cap : Nat) (jobs : List (Job I)) : TaskProgram I O (List (Result O)) := do
  let indexed ← bufferUnordered cap jobs.length jobs []
  let indexed := indexed.mergeSort fun first second => first.1 ≤ second.1
  return indexed.map Prod.snd

/-- Await each call before the next one is made. -/
def oneByOne : List (Job I) → TaskProgram I O (List (Result O))
  | [] => return []
  | job :: rest => do
      let outcome ← executeOne job
      let later ← oneByOne rest
      return outcome :: later

/-- The concurrent fan-out of `parallel` and of a parallel loop. -/
def fanOut (maxInFlight : Nat) (jobs : List (Job I)) : TaskProgram I O (List (Result O)) :=
  if maxInFlight = 0 then joinAll jobs else buffered maxInFlight jobs

/-- The world in which every input has one outcome, and any future in flight may
be the next one to be ready. -/
def schedules (outcome : Job I → Result O) : World (taskSignature I O) Unit where
  Answers _
    | .dispatch _, _, _ => True
    | .await inFlight, ready, _ => ready.2 = outcome (inFlight.get ready.1)

/-- Every outcome under the position of its input. -/
def completionOf (outcome : Job I → Result O) (job : Job I) : Completion O :=
  (job.index, outcome job)

end AltairRs.Wf
