import AltairRs.Wf.DagValidation

/-!
# Layers respect dependencies

Every layer lists fresh nodes whose dependencies earlier layers finished. On a
validated graph the layers together list every node once, so the concatenation
of the layers is a topological order.
-/

namespace AltairRs.Wf

open Graph

variable {I : Type} {dag : DAGInput I}

/-- Layers that can be started one after the other from the finished names. -/
def Layered (dag : DAGInput I) : Finset String → List (List (Fin dag.nodes.length)) → Prop
  | _, [] => True
  | done, layer :: rest =>
      (∀ idx ∈ layer, (dag.nodes.get idx).name ∉ done ∧
        ∀ dep ∈ (dag.nodes.get idx).dependencies, dep ∈ done) ∧
      layer.Nodup ∧ Layered dag (done ∪ dag.namesOf layer) rest

/-- The layering loop builds such layers on any graph. -/
theorem layersFrom_layered (dag : DAGInput I) (done : Finset String) :
    Layered dag done (dag.layersFrom done) := by
  fun_induction dag.layersFrom done with
  | case1 done _ layer stuck => exact trivial
  | case2 done _ layer progress ih =>
      refine ⟨fun idx member => (dag.mem_readyLayer done idx).mp member, ?_, ih⟩
      exact (List.nodup_finRange _).filter _
  | case3 done _ => exact trivial

/-- A listed node is not among the names finished before. -/
theorem Layered.fresh {done : Finset String} {layers : List (List (Fin dag.nodes.length))}
    (layered : Layered dag done layers) :
    ∀ idx ∈ layers.flatten, (dag.nodes.get idx).name ∉ done := by
  induction layers generalizing done with
  | nil => exact nofun
  | cons layer rest ih =>
      intro idx member
      rw [List.flatten_cons, List.mem_append] at member
      rcases member with inLayer | later
      · exact (layered.1 idx inLayer).1
      · exact fun isDone => ih layered.2.2 idx later (Finset.mem_union_left _ isDone)

/-- No node is listed twice. -/
theorem Layered.nodup {done : Finset String} {layers : List (List (Fin dag.nodes.length))}
    (layered : Layered dag done layers) : layers.flatten.Nodup := by
  induction layers generalizing done with
  | nil => exact List.nodup_nil
  | cons layer rest ih =>
      rw [List.flatten_cons, List.nodup_append']
      refine ⟨layered.2.1, ih layered.2.2, fun idx inLayer later => ?_⟩
      refine layered.2.2.fresh idx later (Finset.mem_union_right _ ?_)
      exact (dag.mem_namesOf _ _).mpr ⟨idx, inLayer, rfl⟩

/-- With distinct names, what depends on a node's name depends on the node. -/
theorem dependsOn_iff (unique : (dag.nodes.map DAGNode.name).Nodup)
    (idx : Fin dag.nodes.length) (dep : String) :
    DependsOn dag.nodes (dag.nodes.get idx).name dep ↔ dep ∈ (dag.nodes.get idx).dependencies := by
  constructor
  · rintro ⟨node, member, sameName, isDep⟩
    have sameNode : node = dag.nodes.get idx :=
      List.inj_on_of_nodup_map unique member (List.getElem_mem _) sameName
    rwa [← sameNode]
  · exact fun isDep => ⟨_, List.getElem_mem _, rfl, isDep⟩

/-- A name is that of a node. -/
theorem exists_index_of_name {name : String} (member : name ∈ dag.nodes.map DAGNode.name) :
    ∃ idx : Fin dag.nodes.length, (dag.nodes.get idx).name = name := by
  obtain ⟨node, inNodes, rfl⟩ := List.mem_map.mp member
  obtain ⟨position, inBounds, rfl⟩ := List.mem_iff_getElem.mp inNodes
  exact ⟨⟨position, inBounds⟩, rfl⟩

/-- In an acyclic graph some unfinished node is ready. -/
theorem readyLayer_ne_nil (wellNamed : WellNamed dag.nodes)
    (acyclic : Acyclic (DependsOn dag.nodes)) {done : Finset String}
    {start : Fin dag.nodes.length} (unfinished : (dag.nodes.get start).name ∉ done) :
    dag.readyLayer done ≠ [] := by
  have finishes := acyclic.finishes (dag.nodes.map DAGNode.name).toFinset
    (by
      rintro _ _ ⟨node, member, rfl, _⟩
      exact List.mem_toFinset.mpr (List.mem_map_of_mem member))
    (dag.nodes.get start).name
  have startIsNode : (dag.nodes.get start).name ∈ dag.nodes.map DAGNode.name :=
    List.mem_map_of_mem (List.getElem_mem _)
  let members := fun name => name ∈ dag.nodes.map DAGNode.name ∧ name ∉ done
  have startIn : members (dag.nodes.get start).name := ⟨startIsNode, unfinished⟩
  obtain ⟨name, ⟨isNode, notDone⟩, sink⟩ := exists_sink finishes startIn
  obtain ⟨idx, rfl⟩ := exists_index_of_name isNode
  refine List.ne_nil_of_mem (a := idx) ((dag.mem_readyLayer done idx).mpr ⟨notDone, ?_⟩)
  intro dep isDep
  by_contra depNotDone
  have depIsNode := wellNamed.dependencies _ (List.getElem_mem idx.isLt) dep isDep
  exact sink dep ((dependsOn_iff wellNamed.unique idx dep).mpr isDep) ⟨depIsNode, depNotDone⟩

/-- The loop of a validated graph ends with every node finished or listed. -/
theorem layersFrom_complete (wellNamed : WellNamed dag.nodes)
    (acyclic : Acyclic (DependsOn dag.nodes)) (done : Finset String)
    (known : done ⊆ (dag.nodes.map DAGNode.name).toFinset) (idx : Fin dag.nodes.length) :
    (dag.nodes.get idx).name ∈ done ∨ idx ∈ (dag.layersFrom done).flatten := by
  fun_induction dag.layersFrom done with
  | case1 done _ layer stuck =>
      left
      by_contra unfinished
      exact readyLayer_ne_nil wellNamed acyclic unfinished stuck
  | case2 done _ layer progress ih =>
      have stillKnown : done ∪ dag.namesOf layer ⊆ (dag.nodes.map DAGNode.name).toFinset := by
        refine Finset.union_subset known fun name member => ?_
        obtain ⟨other, _, rfl⟩ := (dag.mem_namesOf _ _).mp member
        exact List.mem_toFinset.mpr (List.mem_map_of_mem (List.getElem_mem _))
      rw [List.flatten_cons, List.mem_append]
      rcases ih stillKnown with doneNow | later
      · rcases Finset.mem_union.mp doneNow with before | inLayer
        · exact .inl before
        · obtain ⟨other, member, sameName⟩ := (dag.mem_namesOf _ _).mp inLayer
          have same : other = idx := by
            have sameNode : dag.nodes.get other = dag.nodes.get idx := List.inj_on_of_nodup_map
              wellNamed.unique (List.getElem_mem _) (List.getElem_mem _) sameName
            have distinct : dag.nodes.Nodup := wellNamed.unique.of_map
            exact Fin.ext ((distinct.getElem_inj_iff).mp sameNode)
          exact .inr (.inl (same ▸ member))
      · exact .inr (.inr later)
  | case3 done full =>
      -- As many names are finished as there are nodes, so all of them are.
      have total : (dag.nodes.map DAGNode.name).toFinset.card = dag.nodes.length := by
        rw [List.toFinset_card_of_nodup wellNamed.unique, List.length_map]
      have all : done = (dag.nodes.map DAGNode.name).toFinset :=
        Finset.eq_of_subset_of_card_le known (by omega)
      rw [all]
      exact .inl (List.mem_toFinset.mpr (List.mem_map_of_mem (List.getElem_mem _)))

/-- On a validated graph the layers list every node exactly once. -/
theorem topologicalLayers_perm (wellNamed : WellNamed dag.nodes)
    (acyclic : Acyclic (DependsOn dag.nodes)) :
    dag.topologicalLayers.flatten.Perm (List.finRange dag.nodes.length) := by
  refine (List.perm_ext_iff_of_nodup (layersFrom_layered dag ∅).nodup
    (List.nodup_finRange _)).mpr fun idx => ?_
  have listed := layersFrom_complete wellNamed acyclic ∅ (by simp) idx
  simpa [DAGInput.topologicalLayers] using listed

/-- A node must wait for another one: a dependency path leads there. -/
def DAGInput.Requires (dag : DAGInput I) (idx dep : Fin dag.nodes.length) : Prop :=
  Relation.TransGen (DependsOn dag.nodes) (dag.nodes.get idx).name (dag.nodes.get dep).name

/-- Names that are finished together with everything they depend on. -/
def DependencyClosed (dag : DAGInput I) (done : Finset String) : Prop :=
  ∀ name ∈ done, ∀ dep, DependsOn dag.nodes name dep → dep ∈ done

/-- What is depended on at any distance is done. -/
theorem DependencyClosed.transitive {done : Finset String} (closed : DependencyClosed dag done)
    {name dep : String} (isDone : name ∈ done)
    (path : Relation.TransGen (DependsOn dag.nodes) name dep) : dep ∈ done := by
  induction path with
  | single edge => exact closed _ isDone _ edge
  | tail _ edge ih => exact closed _ ih _ edge

/-- A node whose dependencies are finished requires nothing else. -/
theorem DependencyClosed.requires {done : Finset String} (closed : DependencyClosed dag done)
    (unique : (dag.nodes.map DAGNode.name).Nodup) {idx dep : Fin dag.nodes.length}
    (ready : ∀ dep ∈ (dag.nodes.get idx).dependencies, dep ∈ done)
    (requires : dag.Requires idx dep) :
    (dag.nodes.get dep).name ∈ done := by
  obtain ⟨first, edge, path⟩ := Relation.TransGen.head'_iff.mp requires
  have firstDone : first ∈ done := ready first ((dependsOn_iff unique idx first).mp edge)
  rcases Relation.reflTransGen_iff_eq_or_transGen.mp path with same | further
  · rwa [same]
  · exact closed.transitive firstDone further

/-- Finishing a layer keeps the finished names closed. -/
theorem DependencyClosed.layer {done : Finset String} (closed : DependencyClosed dag done)
    (unique : (dag.nodes.map DAGNode.name).Nodup) {layer : List (Fin dag.nodes.length)}
    (ready : ∀ idx ∈ layer, ∀ dep ∈ (dag.nodes.get idx).dependencies, dep ∈ done) :
    DependencyClosed dag (done ∪ dag.namesOf layer) := by
  intro name member dep edge
  apply Finset.mem_union_left _
  rcases Finset.mem_union.mp member with isDone | inLayer
  · exact closed name isDone dep edge
  · obtain ⟨idx, idxIn, rfl⟩ := (dag.mem_namesOf _ _).mp inLayer
    exact ready idx idxIn dep ((dependsOn_iff unique idx dep).mp edge)

/-- In the concatenated layers every node stands behind all it requires. -/
theorem Layered.requires_before {done : Finset String}
    {layers : List (List (Fin dag.nodes.length))} (layered : Layered dag done layers)
    (closed : DependencyClosed dag done) (unique : (dag.nodes.map DAGNode.name).Nodup)
    {before after : List (Fin dag.nodes.length)} {idx dep : Fin dag.nodes.length}
    (split : layers.flatten = before ++ idx :: after) (requires : dag.Requires idx dep) :
    (dag.nodes.get dep).name ∈ done ∪ dag.namesOf before := by
  induction layers generalizing done before with
  | nil => simp at split
  | cons layer rest ih =>
      obtain ⟨ready, _, later⟩ := layered
      rw [List.flatten_cons] at split
      have closedNext := closed.layer unique fun idx member => (ready idx member).2
      rcases List.append_eq_append_iff.mp split with
        ⟨middle, isBefore, isRest⟩ | ⟨middle, isLayer, isRest⟩
      · -- The node is in a later layer: this whole layer stands before it.
        have behind := ih later closedNext isRest
        have whole : dag.namesOf before = dag.namesOf layer ∪ dag.namesOf middle := by
          ext name
          simp [isBefore, or_and_right, exists_or]
        rwa [whole, ← Finset.union_assoc]
      · cases middle with
        | nil =>
            have isHead : rest.flatten = [] ++ idx :: after := isRest.symm
            have behind := ih later closedNext isHead
            have same : layer = before := by simpa using isLayer
            simpa [same, DAGInput.namesOf] using behind
        | cons first middle =>
            obtain ⟨rfl, _⟩ := List.cons.inj isRest
            have inLayer : idx ∈ layer := by simp [isLayer]
            exact Finset.mem_union_left _ (closed.requires unique (ready idx inLayer).2 requires)

end AltairRs.Wf
