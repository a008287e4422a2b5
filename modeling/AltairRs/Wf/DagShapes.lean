import AltairRs.Wf.Agreement
import AltairRs.Wf.DagLayers
import AltairRs.Wf.DagReport

/-!
# Graphs that are batches and pipelines

A graph without dependencies is a parallel batch, and a chain is a pipeline: the same
calls in the same order, whatever they are answered, and the same report once the names
of the nodes are read as positions.
-/

namespace AltairRs.Wf

open Effect

variable {I O : Type}

/-- Every node depends on the node before it alone; the first one on `expected`. -/
def ChainedBehind : List String → List (DAGNode I) → Prop
  | _, [] => True
  | expected, node :: rest => node.dependencies = expected ∧ ChainedBehind [node.name] rest

/-- The inputs of a graph. -/
def DAGInput.inputs (dag : DAGInput I) : List I := dag.nodes.map DAGNode.input

/-- An error without the place it stopped at, which graphs name and lists count. -/
def Error.unplaced : Error → Error
  | .patternStopped _ reason => .patternStopped "" reason
  | e => e

/-- What a list returns, without positions of a stop. -/
def ofList (returned : Result (Tally O)) : Result (Tally O) :=
  returned.mapError Error.unplaced

variable {dag : DAGInput I}

/-- What the nodes of a chain depend on, by position. -/
theorem ChainedBehind.dependencies {expected : List String} {nodes : List (DAGNode I)}
    (chained : ChainedBehind expected nodes) :
    ∀ (position : Nat) (inside : position < nodes.length), nodes[position].dependencies =
      if position = 0 then expected else [nodes[position - 1].name] := by
  induction nodes generalizing expected with
  | nil => exact nofun
  | cons node rest ih =>
      intro position inside
      cases position with
      | zero => exact chained.1
      | succ position =>
          rw [List.getElem_cons_succ, ih chained.2 position (Nat.lt_of_succ_lt_succ inside),
            if_neg (Nat.succ_ne_zero position)]
          cases position with
          | zero => rfl
          | succ position => rfl

/-- The names of the first nodes. -/
def DAGInput.frontNames (dag : DAGInput I) (count : Nat) : Finset String :=
  ((dag.nodes.take count).map DAGNode.name).toFinset

variable [TaskOutput O]

variable [TaskInput I]

/-- The strategy a graph stops by. -/
def DAGInput.failureStrategy (dag : DAGInput I) : FailureStrategy :=
  if dag.failFast then .failFast else .continue

end AltairRs.Wf
