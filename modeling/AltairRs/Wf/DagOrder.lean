import AltairRs.Wf.ConcurrencyCap
import AltairRs.Wf.DagExecution

/-!
# Order does not show in a DAG's report

`runDagInOrder` records the nodes one after another. A run settles on it whatever the
futures of a wave do, and so does a run without waves. A graph that is written in another
order is accepted as before, and its report differs at most in the order of its lines.
-/

namespace AltairRs.Wf

open Effect Graph

variable {I O : Type} [TaskOutput O] {outcome : Job I → Result O}

/-- What `run_dag` is for. -/
def runDagInOrder [TaskInput I] (outcome : Job I → Result O) (dag : DAGInput I) :
    Result (DAGOutput O) := do
  dag.validate
  ({} : DAGOutput O).recordLayer dag.failFast (entriesOf dag outcome dag.topologicalLayers.flatten)

/-- The nodes of a graph without waves, each awaited before the next one. -/
def runNodes (dag : DAGInput I) (output : DAGOutput O) :
    List (Fin dag.nodes.length) → TaskProgram I O (Result (DAGOutput O))
  | [] => return .ok output
  | idx :: rest => do
      let outcome ← executeOne (dag.job idx)
      match output.record dag.failFast (dag.nodes.get idx).name outcome with
      | .error e => return .error e
      | .ok output => runNodes dag output rest

/-- A node but for the order of its dependencies. -/
def DAGNode.meaning (node : DAGNode I) : String × I × Finset String :=
  (node.name, node.input, node.dependencies.toFinset)

/-- The same nodes, written in another order. -/
structure Rewritten (first second : DAGInput I) : Prop where
  nodes : (first.nodes.map DAGNode.meaning).Perm (second.nodes.map DAGNode.meaning)
  failFast : first.failFast = second.failFast

/-- Reports that differ in the order of their lines, or are none. -/
inductive SameReport : Result (DAGOutput O) → Result (DAGOutput O) → Prop where
  | completed {first second : DAGOutput O} (nodeResults : first.nodeResults.Perm second.nodeResults)
      (results : ∀ name, first.results.lookup name = second.results.lookup name)
      (totalSuccess : first.totalSuccess = second.totalSuccess)
      (totalFailed : first.totalFailed = second.totalFailed) : SameReport (.ok first) (.ok second)
  | refused {first second : Error} : SameReport (.error first) (.error second)

variable {dag : DAGInput I} {first second : DAGInput I}

omit [TaskOutput O] in
/-- The entries of nodes are those of their parts. -/
theorem entriesOf_append (before after : List (Fin dag.nodes.length)) :
    entriesOf dag outcome (before ++ after) =
      entriesOf dag outcome before ++ entriesOf dag outcome after := by
  rw [entriesOf, List.map_append]
  rfl

/-- The wave loop records its nodes in order, whichever future of a wave is first. -/
theorem runLayers_records (layers : List (List (Fin dag.nodes.length))) (done : Finset String)
    (output : DAGOutput O) (layered : Layered dag done layers) :
    Settles (schedules outcome)
      (fun value _ =>
        value = output.recordLayer dag.failFast (entriesOf dag outcome layers.flatten))
      (runLayers dag output layers) () := by
  induction layers generalizing done output with
  | nil => exact rfl
  | cons layer rest ih =>
      have distinct : ((layer.map dag.job).map Job.index).Nodup := by
        rw [List.map_map]
        exact layered.2.1.map fun _ _ same => Fin.ext same
      refine Settles.seq (joinAll_settles _ distinct) ?_
      rintro _ _ rfl
      have entries : (layer.map fun idx => (dag.nodes.get idx).name).zip
          ((layer.map dag.job).map outcome) = entriesOf dag outcome layer := by
        rw [List.map_map, List.zip_map', entriesOf]
        rfl
      rw [entries, List.flatten_cons, entriesOf_append, DAGOutput.recordLayer_append]
      cases output.recordLayer dag.failFast (entriesOf dag outcome layer) with
      | error e => exact rfl
      | ok next => exact ih _ next layered.2.2

/-- So does the loop without waves. -/
theorem runNodes_records (order : List (Fin dag.nodes.length)) (output : DAGOutput O) :
    Settles (schedules outcome)
      (fun value _ => value = output.recordLayer dag.failFast (entriesOf dag outcome order))
      (runNodes dag output order) () := by
  induction order generalizing output with
  | nil => exact rfl
  | cons idx rest ih =>
      refine Settles.seq (executeOne_settles (dag.job idx)) ?_
      rintro _ _ rfl
      simp only [entriesOf, List.map_cons, DAGOutput.recordLayer]
      cases output.record dag.failFast (dag.nodes.get idx).name (outcome (dag.job idx)) with
      | error e => exact rfl
      | ok next => exact ih next

/-- What validation asks, of what the nodes mean. -/
structure Sound [TaskInput I] (nodes : List (String × I × Finset String)) : Prop where
  isSome : nodes ≠ []
  named : ∀ node ∈ nodes, node.1 ≠ ""
  unique : (nodes.map Prod.fst).Nodup
  dependencies : ∀ node ∈ nodes, ∀ dep ∈ node.2.2, dep ∈ nodes.map Prod.fst
  valid : ∀ node ∈ nodes, Valid node.2.1
  acyclic : Acyclic fun name dep => ∃ node ∈ nodes, node.1 = name ∧ dep ∈ node.2.2

omit [TaskOutput O] in
/-- The meaning keeps the names. -/
theorem map_fst_meaning (nodes : List (DAGNode I)) :
    (nodes.map DAGNode.meaning).map Prod.fst = nodes.map DAGNode.name := by
  rw [List.map_map]
  rfl

/-- Validation accepts exactly the sound graphs. -/
theorem validate_eq_ok_iff_sound [TaskInput I] :
    dag.validate = .ok () ↔ Sound (dag.nodes.map DAGNode.meaning) := by
  have edges : (fun name dep => ∃ node ∈ dag.nodes.map DAGNode.meaning,
      node.1 = name ∧ dep ∈ node.2.2) = DependsOn dag.nodes := by
    funext name dep
    simp [DependsOn, DAGNode.meaning]
  rw [validate_eq_ok_iff]
  constructor
  · rintro ⟨isSome, wellNamed, valid, acyclic⟩
    refine ⟨by simpa using isSome, by simpa [DAGNode.meaning] using wellNamed.named, ?_, ?_,
      by simpa [DAGNode.meaning] using valid, ?_⟩
    · rw [map_fst_meaning]
      exact wellNamed.unique
    · rw [map_fst_meaning]
      simpa [DAGNode.meaning] using wellNamed.dependencies
    · rwa [edges]
  · rintro ⟨isSome, named, unique, dependencies, valid, acyclic⟩
    rw [map_fst_meaning] at unique dependencies
    rw [edges] at acyclic
    exact ⟨by simpa using isSome,
      ⟨by simpa [DAGNode.meaning] using named, unique,
        by simpa [DAGNode.meaning] using dependencies⟩,
      by simpa [DAGNode.meaning] using valid, acyclic⟩

/-- It does not ask for an order. -/
theorem Sound.perm [TaskInput I] {nodes others : List (String × I × Finset String)}
    (perm : nodes.Perm others) (sound : Sound nodes) : Sound others := by
  have names : (nodes.map Prod.fst).Perm (others.map Prod.fst) := perm.map Prod.fst
  refine ⟨fun isNil => sound.isSome (isNil ▸ perm).eq_nil, fun node member => ?_, ?_, ?_,
    fun node member => ?_, ?_⟩
  · exact sound.named node (perm.mem_iff.mpr member)
  · exact names.nodup_iff.mp sound.unique
  · intro node member dep isDep
    exact names.mem_iff.mp (sound.dependencies node (perm.mem_iff.mpr member) dep isDep)
  · exact sound.valid node (perm.mem_iff.mpr member)
  · have acyclic := sound.acyclic
    simpa only [perm.mem_iff] using acyclic

/-- A graph is accepted in any order. -/
theorem Rewritten.validate_iff [TaskInput I] (rewritten : Rewritten first second) :
    first.validate = .ok () ↔ second.validate = .ok () := by
  rw [validate_eq_ok_iff_sound, validate_eq_ok_iff_sound]
  exact ⟨.perm rewritten.nodes, .perm rewritten.nodes.symm⟩

omit [TaskOutput O] in
/-- The nodes' outcomes by name, if an outcome depends on the input only. -/
theorem entriesOf_perm [TaskInput I] (behaves : I → Result O) (accepted : dag.validate = .ok ()) :
    (entriesOf dag (fun job => behaves job.input) dag.topologicalLayers.flatten).Perm
      ((dag.nodes.map DAGNode.meaning).map fun node => (node.1, behaves node.2.1)) := by
  obtain ⟨_, wellNamed, _, acyclic⟩ := (validate_eq_ok_iff dag).mp accepted
  have inOrder : entriesOf dag (fun job => behaves job.input) (List.finRange dag.nodes.length) =
      (dag.nodes.map DAGNode.meaning).map fun node => (node.1, behaves node.2.1) := by
    apply List.ext_getElem
    · simp [entriesOf]
    · simp [entriesOf, DAGInput.job, DAGNode.meaning]
  rw [← inOrder]
  exact (topologicalLayers_perm wellNamed acyclic).map _

/-- Entries under distinct names are recorded alike in any order. -/
theorem sameReport_of_perm {entries others : List (String × Result O)} (perm : entries.Perm others)
    (unique : (entries.map Prod.fst).Nodup) (failFast : Bool) :
    SameReport (({} : DAGOutput O).recordLayer failFast entries)
      (({} : DAGOutput O).recordLayer failFast others) := by
  by_cases clean : failFast = true → ∀ entry ∈ entries, succeeded entry.2 = true
  · have otherClean : failFast = true → ∀ entry ∈ others, succeeded entry.2 = true :=
      fun fast entry member => clean fast entry (perm.mem_iff.mpr member)
    rw [DAGOutput.recordLayer_of_clean clean, DAGOutput.recordLayer_of_clean otherClean]
    have otherUnique : (others.map Prod.fst).Nodup := (perm.map Prod.fst).nodup_iff.mp unique
    refine .completed ?_ (fun name => ?_) ?_ ?_
    · rw [DAGOutput.foldl_add_nodeResults, DAGOutput.foldl_add_nodeResults]
      exact (perm.map _).append_left _
    · ext out
      rw [DAGOutput.foldl_add_results _ _ unique, DAGOutput.foldl_add_results _ _ otherUnique]
      simp only [perm.mem_iff]
    · rw [DAGOutput.foldl_add_totalSuccess, DAGOutput.foldl_add_totalSuccess, perm.countP_eq]
    · rw [DAGOutput.foldl_add_totalFailed, DAGOutput.foldl_add_totalFailed, perm.countP_eq]
  · obtain ⟨fast, dirty⟩ := Classical.not_imp.mp clean
    have otherDirty : ¬ ∀ entry ∈ others, succeeded entry.2 = true := fun otherClean =>
      dirty fun entry member => otherClean entry (perm.mem_iff.mp member)
    obtain ⟨before, entry, after, split, isClean, failure⟩ := exists_first_failure dirty
    obtain ⟨before', entry', after', split', isClean', failure'⟩ := exists_first_failure otherDirty
    rw [fast, split, split', DAGOutput.recordLayer_of_failure isClean failure,
      DAGOutput.recordLayer_of_failure isClean' failure']
    exact .refused

/-- Under every scheduler a graph returns what its nodes return one after another, with
waves or without. Written in another order it is accepted as before, and where an outcome
depends on the input only it reports the same. -/
theorem runDag_order_free [TaskInput I] :
    (∀ (outcome : Job I → Result O) (dag : DAGInput I),
      Settles (schedules outcome) (fun value _ => value = runDagInOrder outcome dag)
        (runDag dag) () ∧
      (dag.validate = .ok () →
        Settles (schedules outcome) (fun value _ => value = runDagInOrder outcome dag)
          (runNodes dag {} dag.topologicalLayers.flatten) ())) ∧
    ∀ (behaves : I → Result O) (first second : DAGInput I), Rewritten first second →
      (first.validate = .ok () ↔ second.validate = .ok ()) ∧
      SameReport (runDagInOrder (fun job => behaves job.input) first)
        (runDagInOrder (fun job => behaves job.input) second) := by
  have isRecord : ∀ (outcome : Job I → Result O) {dag : DAGInput I}, dag.validate = .ok () →
      runDagInOrder outcome dag = ({} : DAGOutput O).recordLayer dag.failFast
        (entriesOf dag outcome dag.topologicalLayers.flatten) := by
    intro outcome dag accepted
    rw [runDagInOrder, accepted]
    rfl
  refine ⟨fun outcome dag => ⟨?_, fun accepted => ?_⟩, fun behaves first second rewritten => ?_⟩
  · cases isValid : dag.validate with
    | error e =>
        rw [runDag, runDagInOrder, isValid]
        exact rfl
    | ok _ =>
        rw [isRecord outcome isValid, runDag, isValid]
        exact runLayers_records _ ∅ {} (layersFrom_layered dag ∅)
  · rw [isRecord outcome accepted]
    exact runNodes_records _ {}
  · refine ⟨rewritten.validate_iff, ?_⟩
    cases isValid : first.validate with
    | error e =>
        cases isOther : second.validate with
        | error e' =>
            rw [runDagInOrder, runDagInOrder, isValid, isOther]
            exact .refused
        | ok _ =>
            rw [rewritten.validate_iff.mpr isOther] at isValid
            cases isValid
    | ok _ =>
        have isOther := rewritten.validate_iff.mp isValid
        have perm := (entriesOf_perm behaves isValid).trans
          ((rewritten.nodes.map _).trans (entriesOf_perm behaves isOther).symm)
        have unique : ((entriesOf first (fun job => behaves job.input)
            first.topologicalLayers.flatten).map Prod.fst).Nodup := by
          have sound := (validate_eq_ok_iff_sound.mp isValid).unique
          rw [((entriesOf_perm behaves isValid).map Prod.fst).nodup_iff, List.map_map]
          exact sound
        rw [isRecord _ isValid, isRecord _ isOther, ← rewritten.failFast]
        exact sameReport_of_perm perm unique first.failFast

/-- The diamond from its end. -/
def diamondFromEnd : DAGInput Task where
  nodes := [⟨"d", ⟨true⟩, ["c", "b"]⟩, ⟨"c", ⟨true⟩, ["a"]⟩, ⟨"b", ⟨true⟩, ["a"]⟩,
    ⟨"a", ⟨true⟩, []⟩]

/-- Every step succeeds. -/
def succeeds (_ : Task) : Result StepResult := .ok ⟨0, true, ""⟩

/-- A diamond and the same one listed from its end. -/
theorem runDag_order_free_diamond :
    Settles (schedules diamondOutcome) (fun value _ => value = runDagInOrder diamondOutcome diamond)
      (runNodes diamond {} diamond.topologicalLayers.flatten) () ∧
    SameReport (runDagInOrder (fun job => succeeds job.input) diamond)
      (runDagInOrder (fun job => succeeds job.input) diamondFromEnd) := by
  have rewritten : Rewritten diamond diamondFromEnd := by
    refine ⟨?_, rfl⟩
    have reversed : diamondFromEnd.nodes.map DAGNode.meaning =
        (diamond.nodes.map DAGNode.meaning).reverse := by
      decide
    rw [reversed]
    exact (List.reverse_perm _).symm
  exact ⟨(runDag_order_free.1 diamondOutcome diamond).2 (by decide +kernel),
    (runDag_order_free.2 succeeds diamond diamondFromEnd rewritten).2⟩

end AltairRs.Wf
