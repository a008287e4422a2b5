import AltairRs.Wf.DagLayers
import AltairRs.Wf.DagReport
import AltairRs.Wf.Scheduling
import AltairRs.Wf.Trace

/-!
# The DAG run respects its graph

The trace of `runDag` never calls a node before everything it requires has
completed, under every scheduler and at every cut. The value is the report on
the nodes in layer order, or the first failure of a graph that fails fast.
-/

namespace AltairRs.Wf

open Effect Graph

variable {I O : Type} [TaskOutput O]

/-- A trace that calls nodes only, none twice, and each one when everything it
requires has completed, and has succeeded if the graph fails fast. -/
structure Respects (dag : DAGInput I) (outcome : Job I → Result O)
    (events : List (Event (taskSignature I O))) : Prop where
  nodes : ∀ job ∈ dispatched events, ∃ idx, job = dag.job idx
  waits : ∀ before event after, events = before ++ event :: after →
    ∀ idx, dispatchOf event = some (dag.job idx) →
      dag.job idx ∉ dispatched before ∧
      ∀ dep, dag.Requires idx dep → dag.job dep ∈ completed before ∧
        (dag.failFast = true → succeeded (outcome (dag.job dep)) = true)

/-- Nothing has been done. -/
theorem Respects.nil (dag : DAGInput I) (outcome : Job I → Result O) :
    Respects dag outcome [] :=
  ⟨nofun, fun before event after split => absurd split (by simp)⟩

/-- One more event keeps the promise if it keeps it itself. -/
theorem Respects.snoc {dag : DAGInput I} {outcome : Job I → Result O}
    {events : List (Event (taskSignature I O))} {event : Event (taskSignature I O)}
    (respects : Respects dag outcome events)
    (node : ∀ job, dispatchOf event = some job → ∃ idx, job = dag.job idx)
    (waits : ∀ idx, dispatchOf event = some (dag.job idx) →
      dag.job idx ∉ dispatched events ∧
      ∀ dep, dag.Requires idx dep → dag.job dep ∈ completed events ∧
        (dag.failFast = true → succeeded (outcome (dag.job dep)) = true)) :
    Respects dag outcome (events ++ [event]) := by
  constructor
  · intro job member
    rw [dispatched_append, List.mem_append] at member
    rcases member with earlier | now
    · exact respects.nodes job earlier
    · obtain ⟨last, isLast, dispatches⟩ := List.mem_filterMap.mp now
      rw [List.mem_singleton.mp isLast] at dispatches
      exact node job dispatches
  · intro before current after split idx dispatches
    rcases List.eq_nil_or_concat after with rfl | ⟨middle, last, rfl⟩
    · obtain ⟨rfl, sameLast⟩ := List.append_inj' split rfl
      obtain ⟨rfl, _⟩ := List.cons.inj sameLast
      exact waits idx dispatches
    · have regroup : events ++ [event] = (before ++ current :: middle) ++ [last] := by
        simpa using split
      exact respects.waits before current middle (List.append_inj' regroup rfl).1 idx dispatches

/-- A poll keeps every promise about calls. -/
theorem Respects.await {dag : DAGInput I} {outcome : Job I → Result O}
    {events : List (Event (taskSignature I O))} (respects : Respects dag outcome events)
    (inFlight : List (Job I)) (ready : Fin inFlight.length × Result O) :
    Respects dag outcome (events ++ [⟨.await inFlight, ready⟩]) :=
  respects.snoc nofun nofun

/-- The promise of a DAG run at every cut. -/
abbrev respectful (dag : DAGInput I) (outcome : Job I → Result O) :
    Contract (taskSignature I O) Unit where
  Inv history _ := Respects dag outcome history

/-- The nodes of a layer may be called after this history. -/
structure Ready (dag : DAGInput I) (outcome : Job I → Result O)
    (layer : List (Fin dag.nodes.length)) (history : List (Event (taskSignature I O))) :
    Prop where
  distinct : layer.Nodup
  fresh : ∀ idx ∈ layer, dag.job idx ∉ dispatched history
  waits : ∀ idx ∈ layer, ∀ dep, dag.Requires idx dep → dag.job dep ∈ completed history ∧
    (dag.failFast = true → succeeded (outcome (dag.job dep)) = true)

/-- Different nodes have different jobs. -/
theorem job_injective (dag : DAGInput I) : Function.Injective dag.job := by
  intro idx other same
  exact Fin.ext (congrArg Job.index same)

variable {dag : DAGInput I} {outcome : Job I → Result O}

/-- Calling a ready layer calls its nodes in order. -/
theorem dispatchAll_safe (layer : List (Fin dag.nodes.length))
    (history : List (Event (taskSignature I O))) (respects : Respects dag outcome history)
    (ready : Ready dag outcome layer history) :
    Safe (schedules outcome) (respectful dag outcome)
      (fun _ later _ => dispatched later = dispatched history ++ layer.map dag.job ∧
        completed later = completed history)
      (dispatchAll (layer.map dag.job)) history () := by
  induction layer generalizing history with
  | nil => exact ⟨respects, by simp, rfl⟩
  | cons idx rest ih =>
      refine ⟨respects, fun response _ _ => ⟨trivial, ?_⟩⟩
      obtain ⟨notLater, restDistinct⟩ := List.nodup_cons.mp ready.distinct
      have next : Respects dag outcome (history ++ [⟨.dispatch (dag.job idx), response⟩]) := by
        refine respects.snoc (fun job isJob => ⟨idx, (Option.some.inj isJob).symm⟩) ?_
        intro other isOther
        have same := job_injective dag (Option.some.inj isOther)
        subst same
        exact ⟨ready.fresh idx List.mem_cons_self, ready.waits idx List.mem_cons_self⟩
      have restReady : Ready dag outcome rest
          (history ++ [⟨.dispatch (dag.job idx), response⟩]) := by
        refine ⟨restDistinct, fun other member => ?_, fun other member dep requires => ?_⟩
        · rw [dispatched_append, dispatched_dispatch, List.mem_append, List.mem_singleton]
          rintro (earlier | same)
          · exact ready.fresh other (List.mem_cons_of_mem _ member) earlier
          · exact notLater (job_injective dag same ▸ member)
        · simpa using ready.waits other (List.mem_cons_of_mem _ member) dep requires
      apply (ih _ next restReady).mono
      intro _ later _ post _
      simpa using post

/-- A poll is safe wherever the run is. -/
theorem await_safe {inFlight : List (Job I)} {history : List (Event (taskSignature I O))}
    {Post : Fin inFlight.length × Result O → List (Event (taskSignature I O)) → Unit → Prop}
    (respects : Respects dag outcome history)
    (post : ∀ ready, Post ready (history ++ [⟨.await inFlight, ready⟩]) ()) :
    Safe (schedules outcome) (respectful dag outcome) Post (await inFlight) history () :=
  ⟨respects, fun ready _ _ => ⟨trivial, respects.await inFlight ready, post ready⟩⟩

/-- Awaiting delivers everything in flight and calls nothing. -/
theorem awaitAll_safe (waiting : Nat) (inFlight : List (Job I))
    (all : inFlight.length = waiting) (history : List (Event (taskSignature I O)))
    (respects : Respects dag outcome history) :
    Safe (schedules outcome) (respectful dag outcome)
      (fun _ later _ => dispatched later = dispatched history ∧
        (completed later).Perm (completed history ++ inFlight))
      (awaitAll waiting inFlight) history () := by
  induction waiting generalizing inFlight history with
  | zero =>
      rw [List.length_eq_zero_iff.mp all]
      exact ⟨respects, rfl, by simp⟩
  | succ waiting ih =>
      refine Safe.bind (await_safe respects fun ready => Safe.bind ?_)
      have fewer : (inFlight.eraseIdx ready.1).length = waiting := by
        rw [List.length_eraseIdx_of_lt ready.1.isLt, all]
        rfl
      apply (ih _ fewer _ (respects.await inFlight ready)).mono
      rintro _ later _ ⟨calls, deliveries⟩ inv
      refine ⟨inv, by simpa using calls, ?_⟩
      have split := (List.getElem_cons_eraseIdx_perm ready.1.isLt).append_left (completed history)
      refine (deliveries.trans ?_).trans split
      simp

/-- A wave calls its nodes, delivers all of them, and returns their outcomes. -/
theorem joinAll_safe (layer : List (Fin dag.nodes.length))
    (history : List (Event (taskSignature I O))) (respects : Respects dag outcome history)
    (ready : Ready dag outcome layer history) :
    Safe (schedules outcome) (respectful dag outcome)
      (fun outcomes later _ => outcomes = layer.map (fun idx => outcome (dag.job idx)) ∧
        dispatched later = dispatched history ++ layer.map dag.job ∧
        (completed later).Perm (completed history ++ layer.map dag.job))
      (joinAll (layer.map dag.job)) history () := by
  have distinct : ((layer.map dag.job).map Job.index).Nodup := by
    rw [List.map_map]
    exact ready.distinct.map fun _ _ same => Fin.ext same
  have traces : Safe (schedules outcome) (respectful dag outcome)
      (fun _ later _ => dispatched later = dispatched history ++ layer.map dag.job ∧
        (completed later).Perm (completed history ++ layer.map dag.job))
      (joinAll (layer.map dag.job)) history () := by
    apply Safe.seq (dispatchAll_safe layer history respects ready)
    rintro _ called _ ⟨calls, deliveries⟩ inv
    apply Safe.seq (awaitAll_safe _ _ rfl called inv)
    rintro _ later _ ⟨noCalls, delivered⟩ laterInv
    refine ⟨laterInv, ?_, ?_⟩
    · rw [noCalls, calls]
    · rwa [deliveries] at delivered
  apply ((joinAll_settles _ distinct).safe traces).mono
  intro outcomes later _ post _
  exact ⟨by rw [post.1, List.map_map]; rfl, post.2⟩

/-- The invariant of the wave loop: the finished names are closed, delivered, and
the only ones called; a graph that fails fast has no failure among them. -/
structure Progress (dag : DAGInput I) (outcome : Job I → Result O) (done : Finset String)
    (history : List (Event (taskSignature I O))) : Prop where
  closed : DependencyClosed dag done
  delivered : ∀ idx, (dag.nodes.get idx).name ∈ done → dag.job idx ∈ completed history
  called : ∀ idx, dag.job idx ∈ dispatched history → (dag.nodes.get idx).name ∈ done
  clean : dag.failFast = true → ∀ idx, (dag.nodes.get idx).name ∈ done →
    succeeded (outcome (dag.job idx)) = true

/-- The named outcomes of some nodes. -/
def entriesOf (dag : DAGInput I) (outcome : Job I → Result O)
    (order : List (Fin dag.nodes.length)) : List (String × Result O) :=
  order.map fun idx => ((dag.nodes.get idx).name, outcome (dag.job idx))

/-- The next layer is ready. -/
theorem Progress.ready {done : Finset String} {history : List (Event (taskSignature I O))}
    {layer : List (Fin dag.nodes.length)} {rest : List (List (Fin dag.nodes.length))}
    (progress : Progress dag outcome done history)
    (unique : (dag.nodes.map DAGNode.name).Nodup) (layered : Layered dag done (layer :: rest)) :
    Ready dag outcome layer history := by
  obtain ⟨ready, distinct, _⟩ := layered
  refine ⟨distinct, fun idx member called => ?_, fun idx member dep requires => ?_⟩
  · exact (ready idx member).1 (progress.called idx called)
  · have depDone := progress.closed.requires unique (ready idx member).2 requires
    exact ⟨progress.delivered dep depDone, fun fast => progress.clean fast dep depDone⟩

/-- A recorded wave makes progress. -/
theorem Progress.wave {done : Finset String}
    {history later : List (Event (taskSignature I O))} {layer : List (Fin dag.nodes.length)}
    {rest : List (List (Fin dag.nodes.length))} {output next : DAGOutput O}
    (progress : Progress dag outcome done history)
    (unique : (dag.nodes.map DAGNode.name).Nodup) (layered : Layered dag done (layer :: rest))
    (calls : dispatched later = dispatched history ++ layer.map dag.job)
    (deliveries : (completed later).Perm (completed history ++ layer.map dag.job))
    (recorded : output.recordLayer dag.failFast (entriesOf dag outcome layer) = .ok next) :
    Progress dag outcome (done ∪ dag.namesOf layer) later := by
  have distinctNodes : dag.nodes.Nodup := unique.of_map
  have inLayer : ∀ idx, (dag.nodes.get idx).name ∈ dag.namesOf layer → idx ∈ layer := by
    intro idx member
    obtain ⟨other, otherIn, sameName⟩ := (dag.mem_namesOf _ _).mp member
    have sameNode := List.inj_on_of_nodup_map unique (List.getElem_mem _) (List.getElem_mem _)
      sameName
    rwa [Fin.ext (distinctNodes.getElem_inj_iff.mp sameNode)] at otherIn
  refine ⟨progress.closed.layer unique fun idx member => (layered.1 idx member).2, ?_, ?_, ?_⟩
  · intro idx member
    refine deliveries.symm.subset (List.mem_append.mpr ?_)
    rcases Finset.mem_union.mp member with before | now
    · exact .inl (progress.delivered idx before)
    · exact .inr (List.mem_map_of_mem (inLayer idx now))
  · intro idx called
    rw [calls, List.mem_append] at called
    rcases called with before | now
    · exact Finset.mem_union_left _ (progress.called idx before)
    · obtain ⟨other, otherIn, same⟩ := List.mem_map.mp now
      rw [job_injective dag same] at otherIn
      exact Finset.mem_union_right _ ((dag.mem_namesOf _ _).mpr ⟨idx, otherIn, rfl⟩)
  · intro fast idx member
    rcases Finset.mem_union.mp member with before | now
    · exact progress.clean fast idx before
    · by_contra failure
      have dirty : ¬ ∀ entry ∈ entriesOf dag outcome layer, succeeded entry.2 = true :=
        fun clean => failure (clean _ (List.mem_map_of_mem (inLayer idx now)))
      obtain ⟨before, entry, after, split, clean, failed⟩ := exists_first_failure dirty
      rw [split, fast, DAGOutput.recordLayer_of_failure clean failed] at recorded
      cases recorded

/-- The wave loop respects the graph; without an error it calls every listed node. -/
theorem runLayers_safe (unique : (dag.nodes.map DAGNode.name).Nodup)
    (layers : List (List (Fin dag.nodes.length))) (done : Finset String) (output : DAGOutput O)
    (history : List (Event (taskSignature I O))) (respects : Respects dag outcome history)
    (progress : Progress dag outcome done history) (layered : Layered dag done layers) :
    Safe (schedules outcome) (respectful dag outcome)
      (fun value later _ =>
        value = output.recordLayer dag.failFast (entriesOf dag outcome layers.flatten) ∧
        ∀ final, value = .ok final →
          dispatched later = dispatched history ++ layers.flatten.map dag.job)
      (runLayers dag output layers) history () := by
  induction layers generalizing done output history with
  | nil => exact ⟨respects, rfl, by simp⟩
  | cons layer rest ih =>
      refine Safe.bind ((joinAll_safe layer history respects
        (progress.ready unique layered)).mono ?_)
      rintro outcomes later _ ⟨rfl, calls, deliveries⟩ inv
      have entries : (layer.map fun idx => (dag.nodes.get idx).name).zip
          (layer.map fun idx => outcome (dag.job idx)) = entriesOf dag outcome layer := by
        rw [List.zip_map', entriesOf]
      have split : entriesOf dag outcome (layer :: rest).flatten =
          entriesOf dag outcome layer ++ entriesOf dag outcome rest.flatten := by
        rw [List.flatten_cons, entriesOf, List.map_append]
        rfl
      rw [entries, split, DAGOutput.recordLayer_append]
      cases recorded : output.recordLayer dag.failFast (entriesOf dag outcome layer) with
      | error e => exact ⟨inv, rfl, nofun⟩
      | ok next =>
          have nextProgress := progress.wave unique layered calls deliveries recorded
          apply (ih _ next later inv nextProgress layered.2.2).mono
          rintro value final _ ⟨valueIs, allCalls⟩ _
          refine ⟨valueIs, fun report isOk => ?_⟩
          rw [allCalls report isOk, calls]
          simp

/-- The wave loop is never stuck. -/
theorem runLayers_settles (layers : List (List (Fin dag.nodes.length))) (done : Finset String)
    (output : DAGOutput O) (layered : Layered dag done layers) :
    Settles (schedules outcome) (fun _ _ => True) (runLayers dag output layers) () := by
  induction layers generalizing done output with
  | nil => exact trivial
  | cons layer rest ih =>
      have distinct : ((layer.map dag.job).map Job.index).Nodup := by
        rw [List.map_map]
        exact layered.2.1.map fun _ _ same => Fin.ext same
      apply Settles.seq (joinAll_settles _ distinct)
      intro outcomes _ _
      cases output.recordLayer dag.failFast
          ((layer.map fun idx => (dag.nodes.get idx).name).zip outcomes) with
      | error e => exact trivial
      | ok next => exact ih _ next layered.2.2

/-- Nothing is finished before the first wave. -/
theorem Progress.initial (dag : DAGInput I) (outcome : Job I → Result O) :
    Progress dag outcome ∅ [] :=
  ⟨nofun, nofun, nofun, nofun⟩

/-- The report on a complete run: every node once, with its own outcome, and the
outputs of the successful nodes under their own names. -/
structure DAGOutput.Reports (dag : DAGInput I) (outcome : Job I → Result O)
    (output : DAGOutput O) : Prop where
  nodeResults : output.nodeResults.Perm ((List.finRange dag.nodes.length).map fun idx =>
    nodeResultOf (dag.nodes.get idx).name (outcome (dag.job idx)))
  totals : output.totalSuccess + output.totalFailed = dag.nodes.length
  results : ∀ name out, output.results.lookup name = some out ↔
    ∃ idx : Fin dag.nodes.length, (dag.nodes.get idx).name = name ∧
      outcome (dag.job idx) = .ok out ∧ TaskOutput.isSuccess out = true

/-- Recording every node once, in any order, gives that report. -/
theorem reports_of_perm (unique : (dag.nodes.map DAGNode.name).Nodup)
    {order : List (Fin dag.nodes.length)} (perm : order.Perm (List.finRange dag.nodes.length)) :
    ((entriesOf dag outcome order).foldl DAGOutput.add {}).Reports dag outcome := by
  have mem_entries : ∀ name result, (name, result) ∈ entriesOf dag outcome order ↔
      ∃ idx : Fin dag.nodes.length, (dag.nodes.get idx).name = name ∧
        outcome (dag.job idx) = result := by
    intro name result
    simp [entriesOf, perm.mem_iff]
  have names : (entriesOf dag outcome order).map Prod.fst =
      order.map fun idx => (dag.nodes.get idx).name := by
    simp [entriesOf]
  have distinct : ((entriesOf dag outcome order).map Prod.fst).Nodup := by
    rw [names, (perm.map _).nodup_iff]
    have allNames : (List.finRange dag.nodes.length).map (fun idx => (dag.nodes.get idx).name) =
        dag.nodes.map DAGNode.name := by
      apply List.ext_getElem
      · simp
      · simp
    rwa [allNames]
  refine ⟨?_, ?_, fun name out => ?_⟩
  · rw [DAGOutput.foldl_add_nodeResults, List.nil_append, entriesOf, List.map_map]
    exact perm.map _
  · have all := List.length_eq_countP_add_countP (fun entry : String × Result O =>
      succeeded entry.2) (l := entriesOf dag outcome order)
    have length : (entriesOf dag outcome order).length = dag.nodes.length := by
      rw [entriesOf, List.length_map, perm.length_eq, List.length_finRange]
    simp only [DAGOutput.foldl_add_totalSuccess, DAGOutput.foldl_add_totalFailed]
    rw [length] at all
    simp only [Bool.not_eq_true] at all ⊢
    simp only [Bool.decide_eq_false] at all
    omega
  · rw [DAGOutput.foldl_add_results _ _ distinct]
    have empty : ({} : DAGOutput O).results.lookup name = none := rfl
    rw [empty]
    simp only [mem_entries, reduceCtorEq, and_false, or_false]
    constructor
    · rintro ⟨⟨idx, isName, isOut⟩, success⟩
      exact ⟨idx, isName, isOut, success⟩
    · rintro ⟨idx, isName, isOut, success⟩
      exact ⟨⟨idx, isName, isOut⟩, success⟩

/-- In the layer order of a validated graph, a node stands behind what it requires. -/
theorem requires_before (wellNamed : WellNamed dag.nodes)
    {before after : List (Fin dag.nodes.length)} {idx dep : Fin dag.nodes.length}
    (split : dag.topologicalLayers.flatten = before ++ idx :: after)
    (requires : dag.Requires idx dep) : dep ∈ before := by
  have closed : DependencyClosed dag ∅ := nofun
  have behind := (layersFrom_layered dag ∅).requires_before closed wellNamed.unique split requires
  rw [Finset.empty_union, dag.mem_namesOf] at behind
  obtain ⟨other, member, sameName⟩ := behind
  have sameNode := List.inj_on_of_nodup_map wellNamed.unique (List.getElem_mem _)
    (List.getElem_mem _) sameName
  have distinct : dag.nodes.Nodup := wellNamed.unique.of_map
  rwa [Fin.ext (distinct.getElem_inj_iff.mp sameNode)] at member

/-- The first failure in layer order is a node whose requirements all succeeded. -/
theorem first_failure (wellNamed : WellNamed dag.nodes)
    {before after : List (String × Result O)} {entry : String × Result O}
    (split : entriesOf dag outcome dag.topologicalLayers.flatten = before ++ entry :: after)
    (clean : ∀ other ∈ before, succeeded other.2 = true) :
    ∃ idx : Fin dag.nodes.length, entry = ((dag.nodes.get idx).name, outcome (dag.job idx)) ∧
      ∀ dep, dag.Requires idx dep → succeeded (outcome (dag.job dep)) = true := by
  obtain ⟨earlier, rest, orderSplit, rfl, restIs⟩ := List.map_eq_append_iff.mp split
  obtain ⟨idx, later, rfl, rfl, rfl⟩ := List.map_eq_cons_iff.mp restIs
  refine ⟨idx, rfl, fun dep requires => ?_⟩
  exact clean _ (List.mem_map_of_mem (requires_before wellNamed orderSplit requires))

/-- A run of an accepted graph calls no node before what it requires has
completed and none twice, and is never stuck. It reports every outcome; or, if
the graph fails fast, it stops at a failing node whose requirements succeeded. -/
theorem runDag_respects_dependencies [TaskInput I] (dag : DAGInput I)
    (accepted : dag.validate = .ok ()) (outcome : Job I → Result O) :
    (∀ events remainder, Reaches (schedules outcome) (runDag dag) () events remainder () →
      Respects dag outcome events) ∧
    (∀ events value, Returns (schedules outcome) (runDag dag) () events value () →
      (∀ output, value = .ok output → output.Reports dag outcome ∧
        (dispatched events).Perm ((List.finRange dag.nodes.length).map dag.job)) ∧
      (dag.failFast = false → ∃ output, value = .ok output) ∧
      (dag.failFast = true →
        ((∃ output, value = .ok output) ↔ ∀ idx, succeeded (outcome (dag.job idx)) = true) ∧
        ∀ e, value = .error e → ∃ idx, succeeded (outcome (dag.job idx)) = false ∧
          e = .patternStopped (dag.nodes.get idx).name (reasonOf (outcome (dag.job idx))) ∧
          ∀ dep, dag.Requires idx dep → succeeded (outcome (dag.job dep)) = true)) ∧
    Settles (schedules outcome) (fun _ _ => True) (runDag dag) () := by
  obtain ⟨_, wellNamed, _, acyclic⟩ := (validate_eq_ok_iff dag).mp accepted
  have layered := layersFrom_layered dag ∅
  have perm := topologicalLayers_perm wellNamed acyclic
  have run : runDag dag = runLayers dag ({} : DAGOutput O) dag.topologicalLayers := by
    unfold runDag
    rw [accepted]
  have safe := runLayers_safe wellNamed.unique dag.topologicalLayers ∅ {} []
    (Respects.nil dag outcome) (Progress.initial dag outcome) layered
  rw [run]
  refine ⟨fun events remainder execution => safe.inv_of_reaches execution,
    fun events value returns => ?_, runLayers_settles _ ∅ {} layered⟩
  obtain ⟨valueIs, calls⟩ := safe.post_of_returns returns
  -- Either nothing has to stop the run, or it stops at the first failure.
  by_cases clean : dag.failFast = true →
      ∀ entry ∈ entriesOf dag outcome dag.topologicalLayers.flatten, succeeded entry.2 = true
  · rw [DAGOutput.recordLayer_of_clean clean] at valueIs
    refine ⟨fun output isOk => ?_, fun _ => ⟨_, valueIs⟩, fun fast => ⟨⟨fun _ idx => ?_,
      fun _ => ⟨_, valueIs⟩⟩, fun e isError => ?_⟩⟩
    · rw [valueIs] at isOk
      cases isOk
      refine ⟨reports_of_perm wellNamed.unique perm, ?_⟩
      have allCalls := calls _ valueIs
      simp only [List.nil_append, dispatched_nil] at allCalls
      rw [allCalls]
      exact perm.map _
    · refine clean fast _ (List.mem_map_of_mem (perm.mem_iff.mpr (List.mem_finRange idx)))
    · rw [valueIs] at isError
      cases isError
  · obtain ⟨fast, dirty⟩ := Classical.not_imp.mp clean
    obtain ⟨before, entry, after, split, cleanBefore, failure⟩ := exists_first_failure dirty
    obtain ⟨idx, rfl, required⟩ := first_failure wellNamed split cleanBefore
    rw [split, fast, DAGOutput.recordLayer_of_failure cleanBefore failure] at valueIs
    refine ⟨fun output isOk => ?_, fun slow => ?_, fun _ => ⟨⟨?_, fun allSucceed => ?_⟩,
      fun e isError => ?_⟩⟩
    · rw [valueIs] at isOk
      cases isOk
    · rw [fast] at slow
      cases slow
    · rintro ⟨output, isOk⟩
      rw [valueIs] at isOk
      cases isOk
    · have success := allSucceed idx
      rw [failure] at success
      cases success
    · rw [valueIs] at isError
      cases isError
      exact ⟨idx, failure, rfl, required⟩

/-- The step `b` of the diamond fails, every other one succeeds. -/
def diamondOutcome (job : Job Task) : Result StepResult :=
  .ok ⟨job.index, job.index != 1, "out of disk"⟩

/-- Without `failFast` the failing step is reported and the rest still runs. -/
theorem runDag_respects_dependencies_diamond :
    ∃ events output, Returns (schedules diamondOutcome) (runDag diamond) () events
      (.ok output) () ∧ output.Reports diamond diamondOutcome := by
  have correct := runDag_respects_dependencies diamond (by decide +kernel) diamondOutcome
  obtain ⟨events, value, _, returns⟩ := correct.2.2.exists_returns
  obtain ⟨reports, succeeds, _⟩ := correct.2.1 events value returns
  obtain ⟨output, rfl⟩ := succeeds rfl
  exact ⟨events, output, returns, (reports output rfl).1⟩

end AltairRs.Wf
