import AltairRs.Wf.Dag
import AltairRs.Wf.Dispatch
import AltairRs.Wf.Helpers

/-!
# The patterns

Single task, pipeline, parallel, the two loops, and the DAG, as programs over
the calls they make. Each checks its input first and returns the error of the
check before any call.
-/

namespace AltairRs.Wf

open Effect

variable {I O : Type}

/-- `execute`. -/
def execute [TaskInput I] (input : I) : TaskProgram I O (Result O) :=
  match TaskInput.validate input with
  | .error e => return .error (.invalidInput (toString e))
  | .ok _ => executeOne ⟨0, input⟩

/-- The loop of `pipeline`: record every outcome before the next call. -/
def pipelineLoop [TaskOutput O] (stopOnError : Bool) (tally : Tally O) :
    List (Job I) → TaskProgram I O (Result (PipelineOutput O))
  | [] => return .ok tally
  | job :: rest => do
      let outcome ← executeOne job
      match tally.record stopOnError job.index outcome with
      | .error e => return .error e
      | .ok tally => pipelineLoop stopOnError tally rest

/-- `pipeline`. -/
def pipeline [TaskInput I] [TaskOutput O] (input : PipelineInput I) :
    TaskProgram I O (Result (PipelineOutput O)) :=
  match input.validate with
  | .error e => return .error e
  | .ok _ => pipelineLoop input.stopOnError {} (enumerate input.tasks)

/-- `parallel`. -/
def parallel [TaskInput I] [TaskOutput O] (input : ParallelInput I) :
    TaskProgram I O (Result (ParallelOutput O)) :=
  match input.validate with
  | .error e => return .error e
  | .ok _ => do
      let rawResults ← fanOut input.maxInFlight (enumerate input.tasks)
      return aggregate (input.failureStrategy = .failFast) 0 {} rawResults

/-- `run_iterations`. -/
def runIterations [TaskOutput O] (inputs : List I) (parallelRun : Bool)
    (failureStrategy : FailureStrategy) (maxInFlight : Nat) :
    TaskProgram I O (Result (LoopAggregate O)) := do
  let outcomes ←
    if parallelRun then fanOut maxInFlight (enumerate inputs) else oneByOne (enumerate inputs)
  return aggregate (failureStrategy = .failFast) 0 {} outcomes

/-- The inputs of a loop, built by the substitutor from every item. -/
def LoopInput.inputs (input : LoopInput I) (substitutor : Substitutor I) : List I :=
  input.items.mapIdx fun i item => substitutor input.template item i ∅

/-- `run_loop`. -/
def runLoop [TaskInput I] [TaskOutput O] (input : LoopInput I) (substitutor : Substitutor I) :
    TaskProgram I O (Result (LoopOutput O)) :=
  match input.validate with
  | .error e => return .error e
  | .ok _ => do
      let aggregated ← runIterations (input.inputs substitutor) input.parallel
        input.failureStrategy input.maxInFlight
      return aggregated.map fun tally => { tally with itemCount := input.items.length }

/-- The inputs of a parameterized loop, built from every combination. -/
def ParameterizedLoopInput.inputs (input : ParameterizedLoopInput I)
    (substitutor : Substitutor I) : List I :=
  (generateParameterCombinations input.parameters).mapIdx fun i params =>
    substitutor input.template "" i params

/-- `parameterized_loop`. -/
def parameterizedLoop [TaskInput I] [TaskOutput O] (input : ParameterizedLoopInput I)
    (substitutor : Substitutor I) : TaskProgram I O (Result (LoopOutput O)) :=
  match input.validate with
  | .error e => return .error e
  | .ok _ => do
      let aggregated ← runIterations (input.inputs substitutor) input.parallel
        input.failureStrategy input.maxInFlight
      return aggregated.map fun tally =>
        { tally with itemCount := (generateParameterCombinations input.parameters).length }

/-- Record the outcome of a node; a failure stops a DAG that fails fast. -/
def DAGOutput.record [TaskOutput O] (failFast : Bool) (output : DAGOutput O) (name : String) :
    Result O → Result (DAGOutput O)
  | .ok out =>
      if TaskOutput.isSuccess out then
        .ok { output with
          results := output.results.insert name out
          nodeResults := output.nodeResults ++ [⟨name, some out, none, true⟩]
          totalSuccess := output.totalSuccess + 1 }
      else if failFast then
        .error (.patternStopped name (failureReason out))
      else
        .ok { output with
          nodeResults := output.nodeResults ++ [⟨name, some out, TaskOutput.error out, false⟩]
          totalFailed := output.totalFailed + 1 }
  | .error e =>
      if failFast then
        .error (.patternStopped name (toString e))
      else
        .ok { output with
          nodeResults := output.nodeResults ++ [⟨name, none, some (toString e), false⟩]
          totalFailed := output.totalFailed + 1 }

/-- Record a wave, node by node in the order of the layer. -/
def DAGOutput.recordLayer [TaskOutput O] (failFast : Bool) (output : DAGOutput O) :
    List (String × Result O) → Result (DAGOutput O)
  | [] => .ok output
  | (name, outcome) :: rest => do
      let output ← output.record failFast name outcome
      output.recordLayer failFast rest

/-- The call of a node, under its position in the node list. -/
def DAGInput.job (dag : DAGInput I) (idx : Fin dag.nodes.length) : Job I :=
  ⟨idx, (dag.nodes.get idx).input⟩

/-- The wave loop of `run_dag`. -/
def runLayers [TaskOutput O] (dag : DAGInput I) (output : DAGOutput O) :
    List (List (Fin dag.nodes.length)) → TaskProgram I O (Result (DAGOutput O))
  | [] => return .ok output
  | layer :: rest => do
      let outcomes ← joinAll (layer.map dag.job)
      match output.recordLayer dag.failFast
        ((layer.map fun idx => (dag.nodes.get idx).name).zip outcomes) with
      | .error e => return .error e
      | .ok output => runLayers dag output rest

/-- `run_dag`. -/
def runDag [TaskInput I] [TaskOutput O] (dag : DAGInput I) :
    TaskProgram I O (Result (DAGOutput O)) :=
  match dag.validate with
  | .error e => return .error e
  | .ok _ => runLayers dag {} dag.topologicalLayers

end AltairRs.Wf
