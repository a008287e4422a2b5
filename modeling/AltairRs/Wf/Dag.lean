import Mathlib.Algebra.GroupWithZero.Nat
import Mathlib.Algebra.Order.BigOperators.Group.List
import Mathlib.Algebra.Order.Group.Nat
import Mathlib.Data.Finset.Card
import Mathlib.Data.List.AList
import AltairRs.Wf.Traits

/-!
# DAG inputs, validation, and layering

`DAGInput.validate` checks a graph in the source's order: nodes, names,
dependencies, payloads, cycles. The cycle check is an iterative three-colour
depth-first search over an explicit stack of frames. Hash maps are association
lists with unique keys; their order is never looked at here.
-/

namespace AltairRs.Wf

/-- A node of a DAG. -/
structure DAGNode (I : Type) where
  name : String
  input : I
  dependencies : List String := []
deriving DecidableEq, Repr

/-- Input of the DAG pattern. -/
structure DAGInput (I : Type) where
  nodes : List (DAGNode I)
  failFast : Bool := false
  maxParallel : Nat := 0
deriving DecidableEq, Repr

/-- The search state of a node; the source codes it as `0`, `1`, `2`. -/
inductive VisitState where
  | unvisited
  | visiting
  | visited
deriving DecidableEq, Repr

/-- Dependencies by node name. -/
abbrev Adjacency := AList fun _ : String => List String

/-- Search states by node name. -/
abbrev VisitStates := AList fun _ : String => VisitState

/-- A node absent from the map is unvisited. -/
def VisitStates.get (state : VisitStates) (name : String) : VisitState :=
  (state.lookup name).getD .unvisited

/-- The dependencies of a name, none when it is not a node. -/
def Adjacency.deps (adj : Adjacency) (name : String) : List String :=
  (adj.lookup name).getD []

/-- Collect the nodes into a map; a later node overwrites an earlier namesake. -/
def adjacency {I : Type} (nodes : List (DAGNode I)) : Adjacency :=
  nodes.foldl (fun adj node => adj.insert node.name node.dependencies) ∅

/-- A frame of the work stack: a node and the index of its next dependency. -/
abbrev Frame := String × Nat

/-- Work the frames still hold: their unread dependencies and their own end. -/
def stackWork (adj : Adjacency) (stack : List Frame) : Nat :=
  (stack.map fun frame => (adj.deps frame.1).length - frame.2 + 1).sum

/-- Work of the map entries no frame was opened for. -/
def unvisitedWork (entries : List (Sigma fun _ : String => List String))
    (state : VisitStates) : Nat :=
  (entries.map fun entry =>
    if state.get entry.1 = .unvisited then entry.2.length + 2 else 0).sum

@[simp] theorem VisitStates.get_insert_self (state : VisitStates) (name : String)
    (mark : VisitState) : VisitStates.get (state.insert name mark) name = mark := by
  simp [VisitStates.get]

/-- Other marks stay. -/
theorem VisitStates.get_insert_ne (state : VisitStates) {name other : String}
    (mark : VisitState) (different : other ≠ name) :
    VisitStates.get (state.insert name mark) other = state.get other := by
  simp [VisitStates.get, AList.lookup_insert_ne different]

/-- Marking a node never makes another one unvisited. -/
theorem unvisitedWork_insert_le (entries : List (Sigma fun _ : String => List String))
    (state : VisitStates) (name : String) {mark : VisitState} (marked : mark ≠ .unvisited) :
    unvisitedWork entries (state.insert name mark) ≤ unvisitedWork entries state := by
  unfold unvisitedWork
  apply List.sum_le_sum
  intro entry _
  by_cases same : entry.1 = name
  · simp [same, marked]
  · rw [VisitStates.get_insert_ne state mark same]

/-- Opening a frame for an unvisited node moves more work than the frame holds. -/
theorem unvisitedWork_insert_lt {entries : List (Sigma fun _ : String => List String)}
    (state : VisitStates) {name : String} {deps : List String} {mark : VisitState}
    (marked : mark ≠ .unvisited) (member : ⟨name, deps⟩ ∈ entries)
    (fresh : state.get name = .unvisited) :
    unvisitedWork entries (state.insert name mark) + deps.length + 2 ≤
      unvisitedWork entries state := by
  induction entries with
  | nil => cases member
  | cons entry rest ih =>
      have split : ∀ state, unvisitedWork (entry :: rest) state =
          (if state.get entry.1 = .unvisited then entry.2.length + 2 else 0) +
            unvisitedWork rest state := fun _ => rfl
      rw [split, split]
      rcases List.mem_cons.mp member with rfl | inRest
      · have others := unvisitedWork_insert_le rest state name marked
        simp only [VisitStates.get_insert_self, marked, if_false, fresh, if_true]
        omega
      · have later := ih inRest
        by_cases same : entry.1 = name
        · simp only [same, VisitStates.get_insert_self, marked, if_false]
          omega
        · rw [VisitStates.get_insert_ne state mark same]
          omega

/-- `dfs_iterative` from a stack of open frames, the last frame first. The stack
and the states together lose work in every turn, so the search ends. -/
def dfsIterative (adj : Adjacency) (stack : List Frame) (state : VisitStates) :
    Result VisitStates :=
  match stack with
  | [] => .ok state
  | (name, cursor) :: rest =>
      if read : (adj.deps name).length ≤ cursor then
        dfsIterative adj rest (state.insert name .visited)
      else
        let dep := (adj.deps name)[cursor]
        match known : adj.lookup dep with
        | none => .error (.invalidInput s!"node '{dep}' not found")
        | some depDeps =>
            match mark : state.get dep with
            | .visiting =>
                .error (.invalidInput s!"circular dependency detected involving node '{dep}'")
            | .unvisited =>
                dfsIterative adj ((dep, 0) :: (name, cursor + 1) :: rest)
                  (state.insert dep .visiting)
            | .visited => dfsIterative adj ((name, cursor + 1) :: rest) state
termination_by stackWork adj stack + unvisitedWork adj.entries state
decreasing_by
  · have kept := unvisitedWork_insert_le adj.entries state name
      (show VisitState.visited ≠ .unvisited by decide)
    simp only [stackWork, List.map_cons, List.sum_cons]
    omega
  · have opened : unvisitedWork adj.entries
          (state.insert (adj.deps name)[cursor] .visiting) + depDeps.length + 2 ≤
        unvisitedWork adj.entries state :=
      unvisitedWork_insert_lt state (by decide) (AList.mem_lookup_iff.mp known) mark
    have depsAre : adj.deps (adj.deps name)[cursor] = depDeps :=
      congrArg (Option.getD · []) known
    simp only [stackWork, List.map_cons, List.sum_cons, depsAre]
    omega
  · simp only [stackWork, List.map_cons, List.sum_cons]
    omega

/-- The outer loop of `detect_cycles`: one search for every unvisited root. -/
def searchRoots {I : Type} (adj : Adjacency) :
    List (DAGNode I) → VisitStates → Result VisitStates
  | [], state => .ok state
  | node :: rest, state =>
      if state.get node.name = .unvisited then do
        let state ← dfsIterative adj [(node.name, 0)] (state.insert node.name .visiting)
        searchRoots adj rest state
      else
        searchRoots adj rest state

/-- `detect_cycles`. -/
def detectCycles {I : Type} (nodes : List (DAGNode I)) : Result Unit := do
  let _ ← searchRoots (adjacency nodes) nodes ∅
  return ()

/-- The names of a node list, rejecting an empty or repeated one. -/
def checkNames {I : Type} : List (DAGNode I) → Finset String → Result (Finset String)
  | [], names => .ok names
  | node :: rest, names =>
      if node.name.isEmpty then
        .error (.invalidInput "DAG node name is required")
      else if node.name ∈ names then
        .error (.invalidInput s!"duplicate DAG node name: {node.name}")
      else
        checkNames rest (insert node.name names)

/-- Every dependency names a node. -/
def checkDependencies {I : Type} (nodes : List (DAGNode I)) (names : Finset String) :
    Result Unit :=
  forM nodes fun node => forM node.dependencies fun dep =>
    if dep ∈ names then .ok ()
    else .error (.invalidInput s!"node '{node.name}' depends on missing node '{dep}'")

/-- Every payload accepts itself. -/
def checkInputs {I : Type} [TaskInput I] (nodes : List (DAGNode I)) : Result Unit :=
  forM nodes fun node =>
    (TaskInput.validate node.input).mapError fun e =>
      .invalidInput s!"node '{node.name}': {e}"

/-- `DAGInput::validate`. -/
def DAGInput.validate {I : Type} [TaskInput I] (dag : DAGInput I) : Result Unit := do
  if dag.nodes.isEmpty then
    .error (.invalidInput "DAG must contain at least one node")
  let names ← checkNames dag.nodes ∅
  checkDependencies dag.nodes names
  checkInputs dag.nodes
  detectCycles dag.nodes

/-- What a layer adds to the finished names. -/
def DAGInput.namesOf {I : Type} (dag : DAGInput I) (layer : List (Fin dag.nodes.length)) :
    Finset String :=
  (layer.map fun idx => (dag.nodes.get idx).name).toFinset

/-- The nodes that are not finished and whose dependencies all are. -/
def DAGInput.readyLayer {I : Type} (dag : DAGInput I) (done : Finset String) :
    List (Fin dag.nodes.length) :=
  (List.finRange dag.nodes.length).filter fun idx =>
    (dag.nodes.get idx).name ∉ done && (dag.nodes.get idx).dependencies.all (· ∈ done)

@[simp] theorem DAGInput.mem_readyLayer {I : Type} (dag : DAGInput I) (done : Finset String)
    (idx : Fin dag.nodes.length) : idx ∈ dag.readyLayer done ↔
      (dag.nodes.get idx).name ∉ done ∧ ∀ dep ∈ (dag.nodes.get idx).dependencies, dep ∈ done := by
  simp [DAGInput.readyLayer]

@[simp] theorem DAGInput.mem_namesOf {I : Type} (dag : DAGInput I)
    (layer : List (Fin dag.nodes.length)) (name : String) :
    name ∈ dag.namesOf layer ↔ ∃ idx ∈ layer, (dag.nodes.get idx).name = name := by
  simp [DAGInput.namesOf]

/-- Names that are still to be finished. -/
def DAGInput.unfinished {I : Type} (dag : DAGInput I) (done : Finset String) : Finset String :=
  (dag.nodes.map DAGNode.name).toFinset \ done

/-- A layer finishes a name that was not finished. -/
theorem DAGInput.card_unfinished_lt {I : Type} (dag : DAGInput I) {done : Finset String}
    (progress : dag.readyLayer done ≠ []) :
    (dag.unfinished (done ∪ dag.namesOf (dag.readyLayer done))).card <
      (dag.unfinished done).card := by
  obtain ⟨idx, member⟩ := List.exists_mem_of_ne_nil _ progress
  have fresh : (dag.nodes.get idx).name ∉ done := ((dag.mem_readyLayer done idx).mp member).1
  apply Finset.card_lt_card
  refine ⟨Finset.sdiff_subset_sdiff (Finset.Subset.refl _) Finset.subset_union_left,
    fun same => ?_⟩
  have present : dag.nodes.get idx ∈ dag.nodes := List.getElem_mem idx.isLt
  have before : (dag.nodes.get idx).name ∈ dag.unfinished done :=
    Finset.mem_sdiff.mpr ⟨List.mem_toFinset.mpr (List.mem_map_of_mem present), fresh⟩
  refine (Finset.mem_sdiff.mp (same before)).2 (Finset.mem_union_right _ ?_)
  exact (dag.mem_namesOf _ _).mpr ⟨idx, member, rfl⟩

/-- The loop of `topological_layers`. Every layer finishes a name, so it ends
even on graphs that were never validated. -/
def DAGInput.layersFrom {I : Type} (dag : DAGInput I) (done : Finset String) :
    List (List (Fin dag.nodes.length)) :=
  if done.card < dag.nodes.length then
    let layer := dag.readyLayer done
    if _stuck : layer = [] then []
    else layer :: dag.layersFrom (done ∪ dag.namesOf layer)
  else []
termination_by (dag.unfinished done).card
decreasing_by exact dag.card_unfinished_lt _stuck

/-- `DAGInput::topological_layers`. -/
def DAGInput.topologicalLayers {I : Type} (dag : DAGInput I) :
    List (List (Fin dag.nodes.length)) :=
  dag.layersFrom ∅

/-- The outcome of a node, as the DAG reports it. -/
structure NodeResult (O : Type) where
  name : String
  result : Option O
  error : Option String
  success : Bool
deriving DecidableEq, Repr

/-- Aggregated DAG result; the node results stand in execution order. -/
structure DAGOutput (O : Type) where
  results : AList (fun _ : String => O) := ∅
  nodeResults : List (NodeResult O) := []
  totalSuccess : Nat := 0
  totalFailed : Nat := 0

/-- Two paths from `d` to `a`. -/
def diamond : DAGInput Task where
  nodes := [⟨"a", ⟨true⟩, []⟩, ⟨"b", ⟨true⟩, ["a"]⟩, ⟨"c", ⟨true⟩, ["a"]⟩,
    ⟨"d", ⟨true⟩, ["b", "c"]⟩]

example : diamond.topologicalLayers.map (List.map Fin.val) = [[0], [1, 2], [3]] := by
  decide +kernel

end AltairRs.Wf
