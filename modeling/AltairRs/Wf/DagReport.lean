import AltairRs.Wf.Patterns

/-!
# The report of a DAG run

What recording a list of named outcomes leaves: an exact report of every
outcome, or the first failure when a failure has to stop the run.
-/

namespace AltairRs.Wf

variable {I O : Type} [TaskOutput O]

/-- The activity succeeded and its output says so. -/
def succeeded : Result O → Bool
  | .ok out => TaskOutput.isSuccess out
  | .error _ => false

/-- The reason a failing outcome is reported with. -/
def reasonOf : Result O → String
  | .ok out => (TaskOutput.error out).getD "task reported failure"
  | .error e => toString e

/-- The report on one node. -/
def nodeResultOf (name : String) : Result O → NodeResult O
  | .ok out =>
      ⟨name, some out, if TaskOutput.isSuccess out then none else TaskOutput.error out,
        TaskOutput.isSuccess out⟩
  | .error e => ⟨name, none, some (toString e), false⟩

/-- The results map after an outcome: successes are entered under their name. -/
def enterResult (results : AList fun _ : String => O) (name : String) :
    Result O → AList fun _ : String => O
  | .ok out => if TaskOutput.isSuccess out then results.insert name out else results
  | .error _ => results

/-- Recording without stopping. -/
def DAGOutput.add (output : DAGOutput O) (entry : String × Result O) : DAGOutput O where
  results := enterResult output.results entry.1 entry.2
  nodeResults := output.nodeResults ++ [nodeResultOf entry.1 entry.2]
  totalSuccess := output.totalSuccess + (succeeded entry.2).toNat
  totalFailed := output.totalFailed + (!succeeded entry.2).toNat

/-- What one recording does: stop at a failure that has to stop, else add. -/
theorem DAGOutput.record_eq (failFast : Bool) (output : DAGOutput O) (name : String)
    (outcome : Result O) : output.record failFast name outcome =
      if failFast && !succeeded outcome then .error (.patternStopped name (reasonOf outcome))
      else .ok (output.add (name, outcome)) := by
  cases outcome with
  | error e =>
      cases failFast <;>
        simp [DAGOutput.record, DAGOutput.add, succeeded, reasonOf, nodeResultOf, enterResult]
  | ok out =>
      by_cases success : TaskOutput.isSuccess out = true
      · simp [DAGOutput.record, DAGOutput.add, succeeded, nodeResultOf, enterResult, success]
      · cases failFast <;>
          simp [DAGOutput.record, DAGOutput.add, succeeded, reasonOf, failureReason, nodeResultOf,
            enterResult, success]

/-- Recording a list in two parts. -/
theorem DAGOutput.recordLayer_append (failFast : Bool) (output : DAGOutput O)
    (entries later : List (String × Result O)) :
    output.recordLayer failFast (entries ++ later) =
      (output.recordLayer failFast entries >>= fun output =>
        output.recordLayer failFast later) := by
  induction entries generalizing output with
  | nil => rfl
  | cons entry rest ih =>
      simp only [List.cons_append, DAGOutput.recordLayer, bind_assoc]
      cases output.record failFast entry.1 entry.2 with
      | error e => rfl
      | ok next => exact ih next

/-- Without a failure that has to stop, every entry is added. -/
theorem DAGOutput.recordLayer_of_clean {failFast : Bool} {entries : List (String × Result O)}
    (clean : failFast = true → ∀ entry ∈ entries, succeeded entry.2 = true)
    (output : DAGOutput O) :
    output.recordLayer failFast entries = .ok (entries.foldl DAGOutput.add output) := by
  induction entries generalizing output with
  | nil => rfl
  | cons entry rest ih =>
      have goesOn : (failFast && !succeeded entry.2) = false := by
        cases failFast with
        | false => rfl
        | true => simp [clean rfl entry List.mem_cons_self]
      have restClean := fun fast other member =>
        clean fast other (List.mem_cons_of_mem _ member)
      simp only [DAGOutput.recordLayer, DAGOutput.record_eq, goesOn, List.foldl_cons]
      exact ih restClean _

/-- The first failure of a list that fails fast stops the recording. -/
theorem DAGOutput.recordLayer_of_failure {before after : List (String × Result O)}
    {entry : String × Result O} (clean : ∀ other ∈ before, succeeded other.2 = true)
    (failure : succeeded entry.2 = false) (output : DAGOutput O) :
    output.recordLayer true (before ++ entry :: after) =
      .error (.patternStopped entry.1 (reasonOf entry.2)) := by
  rw [DAGOutput.recordLayer_append, DAGOutput.recordLayer_of_clean fun _ => clean]
  simp only [DAGOutput.recordLayer, DAGOutput.record_eq, failure]
  rfl

/-- A list without a success everywhere has a first failure. -/
theorem exists_first_failure {entries : List (String × Result O)}
    (dirty : ¬ ∀ entry ∈ entries, succeeded entry.2 = true) :
    ∃ before entry after, entries = before ++ entry :: after ∧
      (∀ other ∈ before, succeeded other.2 = true) ∧ succeeded entry.2 = false := by
  induction entries with
  | nil => exact absurd (fun _ member => (nomatch member)) dirty
  | cons entry rest ih =>
      by_cases success : succeeded entry.2 = true
      · have restDirty : ¬ ∀ other ∈ rest, succeeded other.2 = true := fun clean =>
          dirty (List.forall_mem_cons.mpr ⟨success, clean⟩)
        obtain ⟨before, first, after, rfl, clean, failure⟩ := ih restDirty
        exact ⟨entry :: before, first, after, rfl,
          List.forall_mem_cons.mpr ⟨success, clean⟩, failure⟩
      · exact ⟨[], entry, rest, rfl, nofun, by simpa using success⟩

@[simp] theorem DAGOutput.foldl_add_nodeResults (entries : List (String × Result O))
    (output : DAGOutput O) : (entries.foldl DAGOutput.add output).nodeResults =
      output.nodeResults ++ entries.map fun entry => nodeResultOf entry.1 entry.2 := by
  induction entries generalizing output with
  | nil => simp
  | cons entry rest ih => simp [ih, DAGOutput.add]

@[simp] theorem DAGOutput.foldl_add_totalSuccess (entries : List (String × Result O))
    (output : DAGOutput O) : (entries.foldl DAGOutput.add output).totalSuccess =
      output.totalSuccess + entries.countP fun entry => succeeded entry.2 := by
  induction entries generalizing output with
  | nil => simp
  | cons entry rest ih =>
      rw [List.foldl_cons, ih, List.countP_cons]
      cases success : succeeded entry.2 with
      | true =>
          simp [DAGOutput.add, success]
          omega
      | false =>
          simp [DAGOutput.add, success]

@[simp] theorem DAGOutput.foldl_add_totalFailed (entries : List (String × Result O))
    (output : DAGOutput O) : (entries.foldl DAGOutput.add output).totalFailed =
      output.totalFailed + entries.countP fun entry => !succeeded entry.2 := by
  induction entries generalizing output with
  | nil => simp
  | cons entry rest ih =>
      rw [List.foldl_cons, ih, List.countP_cons]
      cases success : succeeded entry.2 with
      | true =>
          simp [DAGOutput.add, success]
      | false =>
          simp [DAGOutput.add, success]
          omega

/-- An entry changes the results at its own name only. -/
theorem lookup_enterResult (results : AList fun _ : String => O) (name other : String)
    (outcome : Result O) : (enterResult results name outcome).lookup other =
      if other = name ∧ succeeded outcome = true then outcome.toOption
      else results.lookup other := by
  cases outcome with
  | error e => simp [enterResult, succeeded]
  | ok out =>
      by_cases success : TaskOutput.isSuccess out = true
      · by_cases same : other = name
        · subst same
          simp [enterResult, succeeded, success, Except.toOption]
        · simp [enterResult, succeeded, success, same, AList.lookup_insert_ne same]
      · simp [enterResult, succeeded, success]

/-- With distinct fresh names, the results hold the successes under their names. -/
theorem DAGOutput.foldl_add_results (entries : List (String × Result O))
    (output : DAGOutput O) (unique : (entries.map Prod.fst).Nodup) (name : String) (out : O) :
    (entries.foldl DAGOutput.add output).results.lookup name = some out ↔
      (name, .ok out) ∈ entries ∧ TaskOutput.isSuccess out = true ∨
        (∀ outcome, (name, outcome) ∈ entries → succeeded outcome = false) ∧
          output.results.lookup name = some out := by
  induction entries generalizing output with
  | nil => simp
  | cons entry rest ih =>
      obtain ⟨entryName, outcome⟩ := entry
      obtain ⟨fresh, restUnique⟩ := List.nodup_cons.mp unique
      rw [List.foldl_cons, ih _ restUnique]
      simp only [DAGOutput.add, lookup_enterResult]
      by_cases same : name = entryName
      · subst same
        have notLater : ∀ other, (name, other) ∉ rest := fun other member =>
          fresh (List.mem_map.mpr ⟨_, member, rfl⟩)
        cases outcome with
        | error e => simp [notLater, succeeded]
        | ok value =>
            by_cases success : TaskOutput.isSuccess value = true
            · simp only [notLater, succeeded, success, Except.toOption, List.mem_cons,
                Prod.mk.injEq, Except.ok.injEq, true_and, and_self, if_true, or_false,
                false_and, false_or, Option.some.injEq]
              constructor
              · rintro ⟨_, rfl⟩
                exact .inl ⟨rfl, success⟩
              · rintro (⟨rfl, _⟩ | ⟨allFail, _⟩)
                · exact ⟨fun _ impossible => impossible.elim, rfl⟩
                · have failed := allFail (.ok value) rfl
                  simp [success] at failed
            · have failed : TaskOutput.isSuccess value = false := by simpa using success
              simp only [notLater, succeeded, failed, List.mem_cons, Prod.mk.injEq,
                Except.ok.injEq, true_and, or_false, false_and, false_or]
              constructor
              · rintro ⟨_, known⟩
                exact .inr ⟨by rintro _ rfl; exact failed, known⟩
              · rintro (⟨rfl, impossible⟩ | ⟨_, known⟩)
                · simp [failed] at impossible
                · exact ⟨fun _ impossible => impossible.elim, known⟩
      · simp [same]

end AltairRs.Wf
