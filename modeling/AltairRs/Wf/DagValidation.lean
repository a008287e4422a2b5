import AltairRs.Effect.Except
import AltairRs.Graph.Acyclic
import AltairRs.Wf.Dag

/-!
# Validation is exact

The depth-first search accepts a graph exactly when it has no cycle. Its
invariant `Searching` reads the three colours: visiting nodes are the frames of
the stack, each frame one edge below the frame under it, and a visited node
starts no endless path of dependencies.
-/

namespace AltairRs.Wf

open Effect Graph

variable {I : Type}

/-- The edges of a map: from a node to what it depends on. -/
def Adjacency.Edge (adj : Adjacency) (node dep : String) : Prop :=
  dep ∈ adj.deps node

/-- Every dependency is itself a key. -/
def Adjacency.Closed (adj : Adjacency) : Prop :=
  ∀ node dep, adj.Edge node dep → adj.lookup dep ≠ none

/-- Frames, the last first: each one is the dependency its predecessor read
last, and everything a frame read before is visited. -/
def Descends (adj : Adjacency) (state : VisitStates) : Option String → List Frame → Prop
  | _, [] => True
  | child, (name, cursor) :: rest =>
      (∀ dep ∈ (adj.deps name).take cursor, state.get dep = .visited ∨ child = some dep) ∧
      (∀ dep, child = some dep → adj.Edge name dep) ∧
      Descends adj state (some name) rest

/-- The search invariant. -/
structure Searching (adj : Adjacency) (stack : List Frame) (state : VisitStates) : Prop where
  grey : ∀ name, state.get name = .visiting ↔ name ∈ stack.map Prod.fst
  distinct : (stack.map Prod.fst).Nodup
  descends : Descends adj state none stack
  black : ∀ name, state.get name = .visited → Finishes adj.Edge name

/-- More visited nodes keep what the frames below the top have read. -/
theorem Descends.mono {adj : Adjacency} {state next : VisitStates}
    (grows : ∀ name, state.get name = .visited → next.get name = .visited) :
    ∀ {child : Option String} {stack : List Frame}, Descends adj state child stack →
      Descends adj next child stack := by
  intro child stack descends
  induction stack generalizing child with
  | nil => trivial
  | cons frame rest ih =>
      obtain ⟨name, cursor⟩ := frame
      obtain ⟨read, edge, below⟩ := descends
      exact ⟨fun dep member => (read dep member).imp_left (grows dep), edge, ih below⟩

/-- The frame names, the last first, form a path of dependencies. -/
theorem Descends.chain {adj : Adjacency} {state : VisitStates} :
    ∀ {child : Option String} {stack : List Frame}, Descends adj state child stack →
      (stack.map Prod.fst).IsChain fun next current => adj.Edge current next := by
  intro child stack descends
  induction stack generalizing child with
  | nil => exact .nil
  | cons frame rest ih =>
      obtain ⟨name, cursor⟩ := frame
      obtain ⟨_, _, below⟩ := descends
      cases rest with
      | nil => exact .singleton _
      | cons parent rest =>
          exact .cons_cons (below.2.1 name rfl) (ih below)

/-- A dependency that is still being visited closes a cycle. -/
theorem Searching.cycle {adj : Adjacency} {stack : List Frame} {state : VisitStates}
    {name dep : String} {cursor : Nat}
    (searching : Searching adj ((name, cursor) :: stack) state) (edge : adj.Edge name dep)
    (grey : state.get dep = .visiting) : Relation.TransGen adj.Edge dep dep := by
  have onStack : dep ∈ name :: stack.map Prod.fst := (searching.grey dep).mp grey
  have path := reaches_head searching.descends.chain dep onStack
  exact Relation.TransGen.tail' path edge

/-- A frame with nothing left to read is finished: its node turns black. -/
theorem Searching.finish {adj : Adjacency} {rest : List Frame} {state : VisitStates}
    {name : String} {cursor : Nat} (searching : Searching adj ((name, cursor) :: rest) state)
    (read : (adj.deps name).length ≤ cursor) :
    Searching adj rest (state.insert name .visited) := by
  have fresh : name ∉ rest.map Prod.fst := (List.nodup_cons.mp searching.distinct).1
  obtain ⟨all, _, below⟩ := searching.descends
  have grows : ∀ other, state.get other = .visited →
      VisitStates.get (state.insert name .visited) other = .visited := by
    intro other visited
    by_cases same : other = name
    · rw [same, VisitStates.get_insert_self]
    · rw [VisitStates.get_insert_ne state _ same, visited]
  refine ⟨fun other => ?_, (List.nodup_cons.mp searching.distinct).2, ?_, fun other black => ?_⟩
  · by_cases same : other = name
    · subst same
      simp [fresh]
    · have before := searching.grey other
      rw [VisitStates.get_insert_ne state _ same, before]
      simp [same]
  · cases rest with
    | nil => trivial
    | cons parent rest =>
        obtain ⟨parentName, parentCursor⟩ := parent
        obtain ⟨parentRead, _, deeper⟩ := below
        refine ⟨fun dep member => .inl ?_, nofun, deeper.mono grows⟩
        rcases parentRead dep member with visited | isChild
        · exact grows dep visited
        · cases isChild
          exact VisitStates.get_insert_self state name .visited
  · by_cases same : other = name
    · subst same
      apply Finishes.of_successors
      intro dep edge
      rw [List.take_of_length_le read] at all
      rcases all dep edge with visited | impossible
      · exact searching.black dep visited
      · cases impossible
    · rw [VisitStates.get_insert_ne state _ same] at black
      exact searching.black other black

/-- The dependency at the cursor joins what the frame has read. -/
theorem take_succ_reads {deps : List String} {cursor : Nat} (inBounds : cursor < deps.length)
    {dep : String} (member : dep ∈ deps.take (cursor + 1)) :
    dep ∈ deps.take cursor ∨ dep = deps[cursor] := by
  rw [List.take_succ_eq_append_getElem inBounds] at member
  exact (List.mem_append.mp member).imp_right List.mem_singleton.mp

/-- A visited dependency is read and left alone. -/
theorem Searching.skip {adj : Adjacency} {rest : List Frame} {state : VisitStates}
    {name : String} {cursor : Nat} (searching : Searching adj ((name, cursor) :: rest) state)
    (inBounds : cursor < (adj.deps name).length)
    (visited : state.get (adj.deps name)[cursor] = .visited) :
    Searching adj ((name, cursor + 1) :: rest) state := by
  obtain ⟨read, edge, below⟩ := searching.descends
  refine { searching with descends := ⟨fun dep member => ?_, edge, below⟩ }
  rcases take_succ_reads inBounds member with earlier | rfl
  · exact read dep earlier
  · exact .inl visited

/-- An unvisited dependency is read and gets a frame of its own. -/
theorem Searching.descend {adj : Adjacency} {rest : List Frame} {state : VisitStates}
    {name : String} {cursor : Nat} (searching : Searching adj ((name, cursor) :: rest) state)
    (inBounds : cursor < (adj.deps name).length)
    (fresh : state.get (adj.deps name)[cursor] = .unvisited) :
    Searching adj (((adj.deps name)[cursor], 0) :: (name, cursor + 1) :: rest)
      (state.insert (adj.deps name)[cursor] .visiting) := by
  generalize depIs : (adj.deps name)[cursor] = dep at fresh ⊢
  have edge : adj.Edge name dep := depIs ▸ List.getElem_mem inBounds
  have offStack : dep ∉ name :: rest.map Prod.fst := by
    intro onStack
    have grey : state.get dep = .visiting := (searching.grey dep).mpr onStack
    rw [fresh] at grey
    cases grey
  have grows : ∀ other, state.get other = .visited →
      VisitStates.get (state.insert dep .visiting) other = .visited := by
    intro other visited
    have different : other ≠ dep := by
      rintro rfl
      rw [fresh] at visited
      cases visited
    rw [VisitStates.get_insert_ne state _ different, visited]
  obtain ⟨read, _, below⟩ := searching.descends
  refine ⟨fun other => ?_, List.nodup_cons.mpr ⟨offStack, searching.distinct⟩,
    ⟨by simp, nofun, fun other member => ?_, ?_, below.mono grows⟩, fun other black => ?_⟩
  · by_cases same : other = dep
    · subst same
      simp
    · have before := searching.grey other
      rw [VisitStates.get_insert_ne state _ same, before]
      simp [same]
  · rcases take_succ_reads inBounds member with earlier | isDep
    · rcases read other earlier with visited | impossible
      · exact .inl (grows other visited)
      · cases impossible
    · exact .inr (by rw [isDep, depIs])
  · intro other isDep
    cases isDep
    exact edge
  · by_cases same : other = dep
    · subst same
      rw [VisitStates.get_insert_self] at black
      cases black
    · rw [VisitStates.get_insert_ne state _ same] at black
      exact searching.black other black

/-- What a search returns: nothing is left open and everything visited or opened
before is visited, or else the graph has a cycle. -/
def Searched (adj : Adjacency) (stack : List Frame) (state : VisitStates) :
    Result VisitStates → Prop
  | .ok final => Searching adj [] final ∧
      ∀ name, state.get name = .visited ∨ name ∈ stack.map Prod.fst → final.get name = .visited
  | .error _ => ¬ Acyclic adj.Edge

/-- A turn that keeps what is visited or open keeps the promise of the search. -/
theorem Searched.of_turn {adj : Adjacency} {stack nextStack : List Frame}
    {state next : VisitStates} {returned : Result VisitStates}
    (searched : Searched adj nextStack next returned)
    (keeps : ∀ name, state.get name = .visited ∨ name ∈ stack.map Prod.fst →
      next.get name = .visited ∨ name ∈ nextStack.map Prod.fst) :
    Searched adj stack state returned := by
  cases returned with
  | error e => exact searched
  | ok final => exact ⟨searched.1, fun name before => searched.2 name (keeps name before)⟩

/-- The search is exact from any invariant state. The induction is on its turns. -/
theorem dfsIterative_searched {adj : Adjacency} (closed : adj.Closed) (stack : List Frame)
    (state : VisitStates) (searching : Searching adj stack state) :
    Searched adj stack state (dfsIterative adj stack state) := by
  fun_induction dfsIterative adj stack state with
  | case1 state =>
      exact ⟨searching, fun name before => before.resolve_right (by simp)⟩
  | case2 state name cursor rest read ih =>
      -- The frame is exhausted: its node is visited from here on.
      refine (ih (searching.finish read)).of_turn fun other before => ?_
      by_cases same : other = name
      · exact .inl (by rw [same, VisitStates.get_insert_self])
      · rw [VisitStates.get_insert_ne state _ same]
        simpa [same] using before
  | case3 state name cursor rest unread dep unknown =>
      -- Every dependency is a node, so the defensive lookup miss is unreachable.
      have edge : adj.Edge name dep := List.getElem_mem (by omega)
      exact absurd unknown (closed name dep edge)
  | case4 state name cursor rest unread dep depDeps known grey =>
      have edge : adj.Edge name dep := List.getElem_mem (by omega)
      exact fun acyclic => acyclic dep (searching.cycle edge grey)
  | case5 state name cursor rest unread dep depDeps known fresh ih =>
      refine (ih (searching.descend (by omega) fresh)).of_turn fun other before => ?_
      rcases before with visited | onStack
      · have different : other ≠ dep := by
          rintro rfl
          rw [fresh] at visited
          cases visited
        exact .inl (by rw [VisitStates.get_insert_ne state _ different, visited])
      · exact .inr (List.mem_cons_of_mem _ onStack)
  | case6 state name cursor rest unread dep depDeps known visited ih =>
      exact (ih (searching.skip (by omega) visited)).of_turn fun _ before => before

/-- Between searches a node is unvisited or visited. -/
theorem Searching.settled {adj : Adjacency} {state : VisitStates}
    (searching : Searching adj [] state) {name : String} (seen : state.get name ≠ .unvisited) :
    state.get name = .visited := by
  cases mark : state.get name with
  | unvisited => exact absurd mark seen
  | visiting => exact absurd ((searching.grey name).mp mark) (by simp)
  | visited => rfl

/-- An unvisited root opens the first frame of a search. -/
theorem Searching.root {adj : Adjacency} {state : VisitStates}
    (searching : Searching adj [] state) (name : String) :
    Searching adj [(name, 0)] (state.insert name .visiting) := by
  refine ⟨fun other => ?_, by simp, ⟨by simp, nofun, trivial⟩, fun other black => ?_⟩
  · by_cases same : other = name
    · subst same
      simp
    · have before := searching.grey other
      rw [VisitStates.get_insert_ne state _ same, before]
      simp [same]
  · by_cases same : other = name
    · subst same
      rw [VisitStates.get_insert_self] at black
      cases black
    · rw [VisitStates.get_insert_ne state _ same] at black
      exact searching.black other black

/-- Searching every root visits every node, or the graph has a cycle. -/
theorem searchRoots_searched {adj : Adjacency} (closed : adj.Closed) (nodes : List (DAGNode I))
    (state : VisitStates) (searching : Searching adj [] state) :
    match searchRoots adj nodes state with
    | .ok final => Searching adj [] final ∧
        (∀ name, state.get name = .visited → final.get name = .visited) ∧
        ∀ node ∈ nodes, final.get node.name = .visited
    | .error _ => ¬ Acyclic adj.Edge := by
  induction nodes generalizing state with
  | nil => exact ⟨searching, fun _ before => before, nofun⟩
  | cons node rest ih =>
      unfold searchRoots
      by_cases fresh : state.get node.name = .unvisited
      · rw [if_pos fresh]
        have searched := dfsIterative_searched closed [(node.name, 0)] _
          (searching.root node.name)
        cases returned : dfsIterative adj [(node.name, 0)] (state.insert node.name .visiting) with
        | error e =>
            rw [returned] at searched
            exact searched
        | ok next =>
            rw [returned] at searched
            obtain ⟨nextSearching, visits⟩ := searched
            have kept : ∀ name, state.get name = .visited → next.get name = .visited := by
              intro name visited
              have different : name ≠ node.name := by
                rintro rfl
                rw [fresh] at visited
                cases visited
              refine visits name (.inl ?_)
              rw [VisitStates.get_insert_ne state _ different, visited]
            have later := ih next nextSearching
            simp only [bind, Except.bind]
            cases final : searchRoots adj rest next with
            | error e =>
                rw [final] at later
                exact later
            | ok last =>
                rw [final] at later
                obtain ⟨lastSearching, grows, all⟩ := later
                refine ⟨lastSearching, fun name visited => grows name (kept name visited),
                  fun other member => ?_⟩
                rcases List.mem_cons.mp member with rfl | inRest
                · exact grows _ (visits _ (.inr (by simp)))
                · exact all other inRest
      · rw [if_neg fresh]
        have later := ih state searching
        cases final : searchRoots adj rest state with
        | error e =>
            rw [final] at later
            exact later
        | ok last =>
            rw [final] at later
            obtain ⟨lastSearching, grows, all⟩ := later
            refine ⟨lastSearching, grows, fun other member => ?_⟩
            rcases List.mem_cons.mp member with rfl | inRest
            · exact grows _ (searching.settled fresh)
            · exact all other inRest

/-- The dependency relation of a node list. -/
def DependsOn (nodes : List (DAGNode I)) (name dep : String) : Prop :=
  ∃ node ∈ nodes, node.name = name ∧ dep ∈ node.dependencies

/-- What the checks before the cycle check establish. -/
structure WellNamed (nodes : List (DAGNode I)) : Prop where
  named : ∀ node ∈ nodes, node.name ≠ ""
  unique : (nodes.map DAGNode.name).Nodup
  dependencies : ∀ node ∈ nodes, ∀ dep ∈ node.dependencies, dep ∈ nodes.map DAGNode.name

/-- Collecting nodes under fresh names adds exactly their entries. -/
theorem lookup_foldl_insert (nodes : List (DAGNode I)) (adj : Adjacency)
    (unique : (nodes.map DAGNode.name).Nodup) (name : String) (deps : List String) :
    (nodes.foldl (fun adj node => adj.insert node.name node.dependencies) adj).lookup name =
        some deps ↔
      (∃ node ∈ nodes, node.name = name ∧ node.dependencies = deps) ∨
        name ∉ nodes.map DAGNode.name ∧ adj.lookup name = some deps := by
  induction nodes generalizing adj with
  | nil => simp
  | cons node rest ih =>
      obtain ⟨fresh, restUnique⟩ := List.nodup_cons.mp unique
      rw [List.foldl_cons, ih _ restUnique]
      by_cases same : name = node.name
      · subst same
        have notLater : ∀ other ∈ rest, other.name ≠ node.name := by
          rintro other member sameName
          exact fresh (List.mem_map.mpr ⟨other, member, sameName⟩)
        simp only [AList.lookup_insert, Option.some.injEq, fresh, not_false_eq_true, true_and]
        constructor
        · rintro (⟨other, member, sameName, _⟩ | depsAre)
          · exact absurd sameName (notLater other member)
          · exact .inl ⟨node, List.mem_cons_self, rfl, depsAre⟩
        · rintro (⟨other, member, sameName, depsAre⟩ | ⟨absent, _⟩)
          · rcases List.mem_cons.mp member with rfl | inRest
            · exact .inr depsAre
            · exact absurd sameName (notLater other inRest)
          · exact absurd List.mem_cons_self absent
      · have different : node.name ≠ name := fun sameName => same sameName.symm
        simp [AList.lookup_insert_ne same, same, different]

/-- A name's neighbours are its node's dependencies. -/
theorem lookup_adjacency {nodes : List (DAGNode I)} (unique : (nodes.map DAGNode.name).Nodup)
    (name : String) (deps : List String) : (adjacency nodes).lookup name = some deps ↔
      ∃ node ∈ nodes, node.name = name ∧ node.dependencies = deps := by
  unfold adjacency
  rw [lookup_foldl_insert nodes ∅ unique]
  simp

/-- The map of a well-named graph has the edges of the graph. -/
theorem adjacency_edge {nodes : List (DAGNode I)} (unique : (nodes.map DAGNode.name).Nodup)
    (name dep : String) : (adjacency nodes).Edge name dep ↔ DependsOn nodes name dep := by
  unfold Adjacency.Edge Adjacency.deps DependsOn
  cases known : (adjacency nodes).lookup name with
  | none =>
      simp only [Option.getD_none, List.not_mem_nil, false_iff]
      rintro ⟨node, member, sameName, _⟩
      have present := (lookup_adjacency unique name node.dependencies).mpr
        ⟨node, member, sameName, rfl⟩
      rw [known] at present
      cases present
  | some deps =>
      rw [Option.getD_some]
      constructor
      · intro member
        obtain ⟨node, inNodes, sameName, rfl⟩ := (lookup_adjacency unique name deps).mp known
        exact ⟨node, inNodes, sameName, member⟩
      · rintro ⟨node, inNodes, sameName, member⟩
        have present := (lookup_adjacency unique name node.dependencies).mpr
          ⟨node, inNodes, sameName, rfl⟩
        rw [known] at present
        cases present
        exact member

/-- Neighbours are nodes. -/
theorem WellNamed.closed {nodes : List (DAGNode I)} (wellNamed : WellNamed nodes) :
    (adjacency nodes).Closed := by
  intro name dep edge absent
  obtain ⟨node, member, _, isDep⟩ := (adjacency_edge wellNamed.unique name dep).mp edge
  obtain ⟨target, inNodes, sameName⟩ :=
    List.mem_map.mp (wellNamed.dependencies node member dep isDep)
  have present := (lookup_adjacency wellNamed.unique dep target.dependencies).mpr
    ⟨target, inNodes, sameName, rfl⟩
  rw [absent] at present
  cases present

/-- Before the first search every node is unvisited. -/
theorem Searching.initial (adj : Adjacency) : Searching adj [] ∅ :=
  ⟨by simp [VisitStates.get], List.nodup_nil, trivial, by simp [VisitStates.get]⟩

/-- The cycle check is exact on a well-named graph. -/
theorem detectCycles_eq_ok_iff {nodes : List (DAGNode I)} (wellNamed : WellNamed nodes) :
    detectCycles nodes = .ok () ↔ Acyclic (DependsOn nodes) := by
  have sameEdges : (adjacency nodes).Edge = DependsOn nodes := by
    ext name dep
    exact adjacency_edge wellNamed.unique name dep
  have searched := searchRoots_searched wellNamed.closed nodes ∅ (.initial _)
  rw [sameEdges] at searched
  unfold detectCycles
  cases returned : searchRoots (adjacency nodes) nodes ∅ with
  | error e =>
      rw [returned] at searched
      exact ⟨nofun, fun acyclic => absurd acyclic searched⟩
  | ok final =>
      rw [returned] at searched
      obtain ⟨searching, _, visits⟩ := searched
      refine ⟨fun _ => Acyclic.of_finishes fun name => ?_, fun _ => rfl⟩
      -- A name without a node has no edges; a node was visited, so it finishes.
      by_cases present : ∃ node ∈ nodes, node.name = name
      · obtain ⟨node, member, rfl⟩ := present
        exact sameEdges ▸ searching.black node.name (visits node member)
      · refine Finishes.of_successors fun dep edge => absurd ?_ present
        obtain ⟨node, member, sameName, _⟩ := edge
        exact ⟨node, member, sameName⟩

/-- The name check accepts distinct nonempty names it has not seen, and returns
everything seen. -/
theorem checkNames_eq_ok_iff (nodes : List (DAGNode I)) (seen names : Finset String) :
    checkNames nodes seen = .ok names ↔
      (∀ node ∈ nodes, node.name ≠ "") ∧ (nodes.map DAGNode.name).Nodup ∧
        (∀ node ∈ nodes, node.name ∉ seen) ∧ names = (nodes.map DAGNode.name).toFinset ∪ seen := by
  induction nodes generalizing seen with
  | nil =>
      unfold checkNames
      rw [Except.ok.injEq, eq_comm]
      simp
  | cons node rest ih =>
      unfold checkNames
      by_cases nameless : node.name = ""
      · simp [nameless]
      · by_cases repeated : node.name ∈ seen
        · simp [nameless, repeated]
        · rw [if_neg (by simpa using nameless), if_neg repeated, ih]
          simp only [List.forall_mem_cons, List.map_cons, List.nodup_cons, List.toFinset_cons,
            Finset.mem_insert, not_or, Finset.insert_union, Finset.union_insert, List.mem_map,
            not_exists, not_and]
          constructor
          · rintro ⟨named, unique, fresh, rfl⟩
            exact ⟨⟨nameless, named⟩, ⟨fun other member same => (fresh other member).1 same,
              unique⟩, ⟨repeated, fun other member => (fresh other member).2⟩, rfl⟩
          · rintro ⟨⟨_, named⟩, ⟨notLater, unique⟩, ⟨_, fresh⟩, rfl⟩
            exact ⟨named, unique, fun other member => ⟨notLater other member,
              fresh other member⟩, rfl⟩

/-- The check accepts dependencies on the names there are. -/
theorem checkDependencies_eq_ok_iff (nodes : List (DAGNode I)) (names : Finset String) :
    checkDependencies nodes names = .ok () ↔
      ∀ node ∈ nodes, ∀ dep ∈ node.dependencies, dep ∈ names := by
  unfold checkDependencies
  rw [forM_eq_ok_iff]
  refine forall₂_congr fun node _ => ?_
  rw [forM_eq_ok_iff]
  refine forall₂_congr fun dep _ => ?_
  by_cases known : dep ∈ names <;> simp [known]

/-- The check accepts valid inputs. -/
theorem checkInputs_eq_ok_iff [TaskInput I] (nodes : List (DAGNode I)) :
    checkInputs nodes = .ok () ↔ ∀ node ∈ nodes, Valid node.input := by
  unfold checkInputs
  rw [forM_eq_ok_iff]
  exact forall₂_congr fun node _ => mapError_eq_ok_iff

/-- Validation accepts exactly the nonempty, well-named, acyclic graphs whose
payloads accept themselves. -/
theorem validate_eq_ok_iff [TaskInput I] (dag : DAGInput I) : dag.validate = .ok () ↔
    dag.nodes ≠ [] ∧ WellNamed dag.nodes ∧ (∀ node ∈ dag.nodes, Valid node.input) ∧
      Acyclic (DependsOn dag.nodes) := by
  unfold DAGInput.validate
  by_cases empty : dag.nodes = []
  · simp [empty, bind, Except.bind]
  · rw [if_neg (by simpa using empty)]
    simp only [bind_eq_ok_iff, checkNames_eq_ok_iff]
    constructor
    · rintro ⟨names, ⟨named, unique, _, rfl⟩, ⟨⟩, depsChecked, ⟨⟩, inputsChecked, noCycle⟩
      have known := (checkDependencies_eq_ok_iff _ _).mp depsChecked
      have wellNamed : WellNamed dag.nodes :=
        ⟨named, unique, fun node member dep isDep => by simpa using known node member dep isDep⟩
      exact ⟨empty, wellNamed, (checkInputs_eq_ok_iff _).mp inputsChecked,
        (detectCycles_eq_ok_iff wellNamed).mp noCycle⟩
    · rintro ⟨_, wellNamed, valid, acyclic⟩
      refine ⟨_, ⟨wellNamed.named, wellNamed.unique, by simp, rfl⟩, (), ?_, (),
        (checkInputs_eq_ok_iff _).mpr valid, (detectCycles_eq_ok_iff wellNamed).mpr acyclic⟩
      refine (checkDependencies_eq_ok_iff _ _).mpr fun node member dep isDep => ?_
      simpa using wellNamed.dependencies node member dep isDep

/-- On a nonempty graph with distinct nonempty names, existing dependencies, and
valid payloads, validation accepts exactly the acyclic ones. -/
theorem DAGInput.validate_exact [TaskInput I] (dag : DAGInput I) (nonempty : dag.nodes ≠ [])
    (wellNamed : WellNamed dag.nodes) (valid : ∀ node ∈ dag.nodes, Valid node.input) :
    dag.validate = .ok () ↔ ∀ name, ¬ Relation.TransGen (DependsOn dag.nodes) name name := by
  rw [validate_eq_ok_iff]
  exact ⟨fun accepted => accepted.2.2.2, fun acyclic => ⟨nonempty, wellNamed, valid, acyclic⟩⟩

/-- The diamond is well named. -/
theorem diamond_wellNamed : WellNamed diamond.nodes :=
  ⟨by decide, by decide, by decide⟩

/-- The diamond meets every assumption. -/
theorem DAGInput.validate_exact_diamond : diamond.validate = .ok () ↔
    ∀ name, ¬ Relation.TransGen (DependsOn diamond.nodes) name name :=
  diamond.validate_exact (by decide) diamond_wellNamed (by decide)

example : diamond.validate = .ok () := by decide +kernel

end AltairRs.Wf
