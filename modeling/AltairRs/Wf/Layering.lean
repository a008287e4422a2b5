import Mathlib.Order.Bounds.Basic
import AltairRs.Wf.DagLayers

/-!
# Layering any graph

What `topological_layers` promises before anything is validated: the `while` ends,
and the layers it has built are nonempty, list no node twice, and have every listed
node in the earliest layer that its dependencies allow. After validation they list
every node.
-/

namespace AltairRs.Wf

variable {I : Type} {dag : DAGInput I}

/-- The variables of the `while` of `topological_layers`. -/
structure LayerState (dag : DAGInput I) where
  layers : List (List (Fin dag.nodes.length)) := []
  done : Finset String := ∅

/-- One turn of the `while`, if there is one. -/
def DAGInput.layerTurn (dag : DAGInput I) (state : LayerState dag) : Option (LayerState dag) :=
  if state.done.card < dag.nodes.length then
    let layer := dag.readyLayer state.done
    if layer = [] then none
    else some ⟨state.layers ++ [layer], state.done ∪ dag.namesOf layer⟩
  else none

/-- The `while` ends after so many turns. -/
inductive EndsAfter (dag : DAGInput I) : Nat → LayerState dag → LayerState dag → Prop where
  | now {state} (isEnd : dag.layerTurn state = none) : EndsAfter dag 0 state state
  | turn {turns state next final} (goesOn : dag.layerTurn state = some next)
      (rest : EndsAfter dag turns next final) : EndsAfter dag (turns + 1) state final

/-- The names that the layers before a position list. -/
def DAGInput.namesBefore (dag : DAGInput I) (layers : List (List (Fin dag.nodes.length)))
    (position : Nat) : Finset String :=
  dag.namesOf (layers.take position).flatten

/-- A node may stand in the layer at a position: the layers before list its dependencies. -/
def DAGInput.Allows (dag : DAGInput I) (layers : List (List (Fin dag.nodes.length)))
    (idx : Fin dag.nodes.length) (position : Nat) : Prop :=
  ∀ dep ∈ (dag.nodes.get idx).dependencies, dep ∈ dag.namesBefore layers position

/-- What is true of the layers of any graph. -/
structure SoundLayers (dag : DAGInput I) (layers : List (List (Fin dag.nodes.length))) : Prop where
  nonempty : ∀ layer ∈ layers, layer ≠ []
  once : layers.flatten.Nodup
  dependencies : ∀ position layer, layers[position]? = some layer →
    ∀ idx ∈ layer, dag.Allows layers idx position
  earliest : ∀ position layer, layers[position]? = some layer →
    ∀ idx ∈ layer, ∀ other, dag.Allows layers idx other → position ≤ other

/-- The names of two lists of nodes. -/
theorem DAGInput.namesOf_append (dag : DAGInput I) (first second : List (Fin dag.nodes.length)) :
    dag.namesOf (first ++ second) = dag.namesOf first ∪ dag.namesOf second := by
  ext name
  simp [or_and_right, exists_or]

@[simp] theorem DAGInput.namesBefore_zero (dag : DAGInput I)
    (layers : List (List (Fin dag.nodes.length))) : dag.namesBefore layers 0 = ∅ := rfl

/-- One more layer stands before. -/
theorem DAGInput.namesBefore_succ (dag : DAGInput I) (layer : List (Fin dag.nodes.length))
    (rest : List (List (Fin dag.nodes.length))) (position : Nat) :
    dag.namesBefore (layer :: rest) (position + 1) =
      dag.namesOf layer ∪ dag.namesBefore rest position := by
  simp [DAGInput.namesBefore, DAGInput.namesOf_append]

/-- In a layer, the dependencies are finished or listed before. -/
theorem Layered.dependencies {done : Finset String} {layers : List (List (Fin dag.nodes.length))}
    (layered : Layered dag done layers) {position : Nat} {layer : List (Fin dag.nodes.length)}
    (isLayer : layers[position]? = some layer) {idx : Fin dag.nodes.length} (member : idx ∈ layer) :
    ∀ dep ∈ (dag.nodes.get idx).dependencies, dep ∈ done ∪ dag.namesBefore layers position := by
  induction layers generalizing done position with
  | nil => cases isLayer
  | cons first rest ih =>
      obtain ⟨ready, _, later⟩ := layered
      cases position with
      | zero =>
          cases isLayer
          intro dep isDep
          exact Finset.mem_union_left _ ((ready idx member).2 dep isDep)
      | succ position =>
          intro dep isDep
          rw [dag.namesBefore_succ, ← Finset.union_assoc]
          exact ih later isLayer dep isDep

/-- No layer is empty. -/
theorem layersFrom_nonempty (dag : DAGInput I) (done : Finset String) :
    ∀ layer ∈ dag.layersFrom done, layer ≠ [] := by
  fun_induction dag.layersFrom done with
  | case1 done _ layer stuck => exact List.forall_mem_nil _
  | case2 done _ layer progress ih => exact List.forall_mem_cons.mpr ⟨progress, ih⟩
  | case3 done _ => exact List.forall_mem_nil _

/-- A node is listed in the first layer before which its dependencies are finished: the
loop would have listed it there. -/
theorem layersFrom_earliest (dag : DAGInput I) (done : Finset String) :
    ∀ position layer, (dag.layersFrom done)[position]? = some layer → ∀ idx ∈ layer, ∀ other,
      (∀ dep ∈ (dag.nodes.get idx).dependencies,
        dep ∈ done ∪ dag.namesBefore (dag.layersFrom done) other) → position ≤ other := by
  fun_induction dag.layersFrom done with
  | case1 done _ layer stuck | case3 done _ =>
      intro position layer isLayer
      rw [List.getElem?_nil] at isLayer
      cases isLayer
  | case2 done _ first progress ih =>
      intro position layer isLayer idx member other allowed
      cases position with
      | zero => exact Nat.zero_le _
      | succ position =>
          have listed : idx ∈ (dag.layersFrom (done ∪ dag.namesOf first)).flatten :=
            List.mem_flatten.mpr ⟨layer, List.mem_of_getElem? isLayer, member⟩
          have fresh := (layersFrom_layered dag _).fresh idx listed
          cases other with
          | zero =>
              -- It was ready in the first turn, so its name is finished by then.
              have ready : idx ∈ first := by
                refine (dag.mem_readyLayer done idx).mpr ⟨fun isDone => ?_, fun dep isDep => ?_⟩
                · exact fresh (Finset.mem_union_left _ isDone)
                · simpa using allowed dep isDep
              exact absurd (Finset.mem_union_right _ ((dag.mem_namesOf _ _).mpr ⟨idx, ready, rfl⟩))
                fresh
          | succ other =>
              refine Nat.succ_le_succ (ih position layer isLayer idx member other ?_)
              intro dep isDep
              rw [Finset.union_assoc, ← dag.namesBefore_succ]
              exact allowed dep isDep

/-- The layers of any graph are sound. -/
theorem topologicalLayers_sound (dag : DAGInput I) : SoundLayers dag dag.topologicalLayers := by
  have layered := layersFrom_layered dag ∅
  refine ⟨layersFrom_nonempty dag ∅, layered.nodup, ?_, ?_⟩
  · intro position layer isLayer idx member dep isDep
    have before := layered.dependencies isLayer member dep isDep
    rwa [Finset.empty_union] at before
  · intro position layer isLayer idx member other allowed
    refine layersFrom_earliest dag ∅ position layer isLayer idx member other fun dep isDep => ?_
    exact Finset.mem_union_right _ (allowed dep isDep)

/-- Every layer finishes a name that was not finished. -/
theorem length_layersFrom_le (dag : DAGInput I) (done : Finset String) :
    (dag.layersFrom done).length ≤ (dag.unfinished done).card := by
  fun_induction dag.layersFrom done with
  | case1 done _ layer stuck => exact Nat.zero_le _
  | case3 done _ => exact Nat.zero_le _
  | case2 done _ layer progress ih =>
      exact Nat.succ_le_of_lt (ih.trans_lt (dag.card_unfinished_lt progress))

/-- The `while` makes one turn for every layer that the recursion builds. -/
theorem endsAfter_layersFrom (dag : DAGInput I) (done : Finset String)
    (before : List (List (Fin dag.nodes.length))) :
    ∃ final, EndsAfter dag (dag.layersFrom done).length ⟨before, done⟩ final ∧
      final.layers = before ++ dag.layersFrom done := by
  fun_induction dag.layersFrom done generalizing before with
  | case1 done isShort layer stuck =>
      refine ⟨_, .now ?_, (List.append_nil _).symm⟩
      unfold DAGInput.layerTurn
      rw [if_pos isShort, if_pos stuck]
  | case3 done isFull =>
      refine ⟨_, .now ?_, (List.append_nil _).symm⟩
      unfold DAGInput.layerTurn
      rw [if_neg isFull]
  | case2 done isShort layer progress ih =>
      obtain ⟨final, ends, isLayers⟩ := ih (before ++ [layer])
      refine ⟨final, .turn ?_ ends, by rw [isLayers, List.append_assoc]; rfl⟩
      unfold DAGInput.layerTurn
      rw [if_pos isShort, if_neg progress]

/-- On any graph the `while` ends, within as many turns as there are nodes, and its layers
are sound; on a validated one they list every node once. -/
theorem topologicalLayers_anyGraph [TaskInput I] (dag : DAGInput I) :
    (∃ turns final, EndsAfter dag turns {} final ∧ turns ≤ dag.nodes.length ∧
      final.layers = dag.topologicalLayers) ∧
    SoundLayers dag dag.topologicalLayers ∧
    (dag.validate = .ok () →
      dag.topologicalLayers.flatten.Perm (List.finRange dag.nodes.length) ∧
      ∀ position layer, dag.topologicalLayers[position]? = some layer →
        ∀ idx ∈ layer,
          IsLeast { other | dag.Allows dag.topologicalLayers idx other } position) := by
  have sound := topologicalLayers_sound dag
  refine ⟨?_, sound, fun accepted => ⟨?_, fun position layer isLayer idx member => ?_⟩⟩
  · obtain ⟨final, ends, isLayers⟩ := endsAfter_layersFrom dag ∅ []
    refine ⟨_, final, ends, ?_, isLayers⟩
    calc (dag.layersFrom ∅).length
        ≤ (dag.unfinished ∅).card := length_layersFrom_le dag ∅
      _ ≤ (dag.nodes.map DAGNode.name).toFinset.card := Finset.card_le_card Finset.sdiff_subset
      _ ≤ (dag.nodes.map DAGNode.name).length := List.toFinset_card_le _
      _ = dag.nodes.length := List.length_map _
  · obtain ⟨_, wellNamed, _, acyclic⟩ := (validate_eq_ok_iff dag).mp accepted
    exact topologicalLayers_perm wellNamed acyclic
  · exact ⟨sound.dependencies position layer isLayer idx member,
      sound.earliest position layer isLayer idx member⟩

/-- The layers of the diamond hold each of its nodes once. -/
theorem topologicalLayers_anyGraph_diamond :
    diamond.topologicalLayers.flatten.Perm (List.finRange diamond.nodes.length) :=
  ((topologicalLayers_anyGraph diamond).2.2 (by decide +kernel)).1

end AltairRs.Wf
