import Mathlib.Data.List.Perm.Basic
import AltairRs.Data.Keyed
import AltairRs.Wf.Dispatch

/-!
# The scheduler is unobservable

Whichever future the scheduler lets finish first, each combinator hands back the
outcomes in the order of its inputs. The completions of a run are a permutation
of the outcomes; the slots of `joinAll` and the sort of `buffered` undo it.
-/

namespace AltairRs.Wf

open Effect

variable {I O : Type} {outcome : Job I → Result O}

@[simp] theorem enumerate_map_index (inputs : List I) :
    (enumerate inputs).map Job.index = List.range inputs.length := by
  apply List.ext_getElem
  · simp [enumerate]
  · intro position _ _
    simp [enumerate]

@[simp] theorem enumerate_map_input (inputs : List I) :
    (enumerate inputs).map Job.input = inputs := by
  apply List.ext_getElem
  · simp [enumerate]
  · intro position _ _
    simp [enumerate]

/-- The positions count from zero. -/
theorem enumerate_positions (inputs : List I) :
    (enumerate inputs).map Job.index = List.range' 0 (enumerate inputs).length := by
  rw [enumerate_map_index, List.range_eq_range', enumerate, List.length_mapIdx]

/-- A call answers at once. -/
theorem dispatch_settles (job : Job I) {Post : Unit → Unit → Prop} (post : Post () ()) :
    Settles (schedules outcome) Post (dispatch job) () :=
  ⟨⟨(), (), trivial⟩, fun _ _ _ => post⟩

/-- A poll of a nonempty set answers with the outcome of some future in it. -/
theorem await_settles {inFlight : List (Job I)} (nonempty : inFlight ≠ [])
    {Post : Fin inFlight.length × Result O → Unit → Prop}
    (post : ∀ index, Post (index, outcome (inFlight.get index)) ()) :
    Settles (schedules outcome) Post (await inFlight) () := by
  have first : Fin inFlight.length := ⟨0, List.length_pos_iff.mpr nonempty⟩
  refine ⟨⟨(first, outcome (inFlight.get first)), (), rfl⟩, ?_⟩
  rintro ⟨index, result⟩ _ answer
  have resultIs : result = outcome (inFlight.get index) := answer
  rw [resultIs]
  exact post index

/-- One task settles on its outcome. -/
theorem executeOne_settles (job : Job I) :
    Settles (schedules outcome) (fun result _ => result = outcome job) (executeOne job) () := by
  refine Settles.bind (dispatch_settles job (Settles.bind (await_settles (by simp) ?_)))
  rintro ⟨index, inBounds⟩
  exact congrArg outcome (by simp)

/-- Dispatching settles. -/
theorem dispatchAll_settles (jobs : List (Job I)) :
    Settles (schedules outcome) (fun _ _ => True) (dispatchAll jobs) () := by
  induction jobs with
  | nil => exact trivial
  | cons job rest ih => exact Settles.bind (dispatch_settles job ih)

/-- Awaiting everything yields every outcome once. -/
theorem awaitAll_settles (waiting : Nat) (inFlight : List (Job I))
    (all : inFlight.length = waiting) :
    Settles (schedules outcome)
      (fun completions _ => completions.Perm (inFlight.map (completionOf outcome)))
      (awaitAll waiting inFlight) () := by
  induction waiting generalizing inFlight with
  | zero =>
      rw [List.length_eq_zero_iff.mp all]
      exact List.Perm.refl _
  | succ waiting ih =>
      have nonempty : inFlight ≠ [] := List.ne_nil_of_length_eq_add_one all
      refine Settles.bind (await_settles nonempty fun index => Settles.bind ?_)
      have fewer : (inFlight.eraseIdx index).length = waiting := by
        rw [List.length_eraseIdx_of_lt index.isLt, all]
        rfl
      apply (ih _ fewer).mono
      intro later _ perm
      have split := (List.getElem_cons_eraseIdx_perm index.isLt).map (completionOf outcome)
      exact (perm.cons _).trans split

/-- `joinAll` returns the outcomes in input order. -/
theorem joinAll_settles (jobs : List (Job I)) (distinct : (jobs.map Job.index).Nodup) :
    Settles (schedules outcome) (fun outcomes _ => outcomes = jobs.map outcome)
      (joinAll jobs) () := by
  refine Settles.bind ((dispatchAll_settles jobs).mono fun _ _ _ => Settles.bind ?_)
  apply (awaitAll_settles jobs.length jobs rfl).mono
  intro completions _ perm
  have keys : (completions.map Prod.fst).Perm (jobs.map Job.index) := by
    have mapped := perm.map Prod.fst
    rwa [List.map_map] at mapped
  -- Every job finds its own outcome, so the slots are full.
  have slot : ∀ job ∈ jobs, completions.lookup job.index = some (outcome job) := by
    intro job member
    rw [Keyed.lookup_eq_some_iff (keys.nodup_iff.mpr distinct)]
    exact perm.symm.subset (List.mem_map_of_mem member)
  change jobs.filterMap _ = jobs.map outcome
  rw [← List.filterMap_eq_map']
  exact List.filterMap_congr slot

/-- Filling keeps the order of the inputs and stops at the cap or at the end. -/
theorem fillInFlight_settles (cap : Nat) (pending inFlight : List (Job I)) :
    Settles (schedules outcome)
      (fun filled _ => filled.2 ++ filled.1 = inFlight ++ pending ∧
        (filled.1 = [] ∨ cap ≤ filled.2.length))
      (fillInFlight cap pending inFlight) () := by
  induction pending generalizing inFlight with
  | nil => exact ⟨rfl, .inl rfl⟩
  | cons job pending ih =>
      unfold fillInFlight
      by_cases room : inFlight.length < cap
      · rw [if_pos room]
        refine Settles.bind (dispatch_settles job ?_)
        simpa using ih (inFlight ++ [job])
      · rw [if_neg room]
        exact ⟨rfl, .inr (Nat.le_of_not_lt room)⟩

/-- The bounded stream yields every outcome once, whatever its positive cap. -/
theorem bufferUnordered_settles {cap : Nat} (positive : 0 < cap) (waiting : Nat)
    (pending inFlight : List (Job I)) (all : inFlight.length + pending.length = waiting) :
    Settles (schedules outcome)
      (fun completions _ => completions.Perm ((inFlight ++ pending).map (completionOf outcome)))
      (bufferUnordered cap waiting pending inFlight) () := by
  induction waiting generalizing pending inFlight with
  | zero =>
      have noneInFlight : inFlight = [] := List.length_eq_zero_iff.mp (by omega)
      have nonePending : pending = [] := List.length_eq_zero_iff.mp (by omega)
      rw [noneInFlight, nonePending]
      exact List.Perm.refl _
  | succ waiting ih =>
      apply Settles.seq (fillInFlight_settles cap pending inFlight)
      rintro ⟨stillPending, filled⟩ _ ⟨same, full⟩
      have total : filled.length + stillPending.length = waiting + 1 := by
        rw [← all, ← List.length_append, same, List.length_append]
      have nonempty : filled ≠ [] := by
        rintro rfl
        rcases full with allStarted | capReached
        · rw [show stillPending = [] from allStarted] at total
          cases total
        · exact absurd capReached (Nat.not_le_of_lt positive)
      refine Settles.bind (await_settles nonempty fun index => Settles.bind ?_)
      have fewer : (filled.eraseIdx index).length + stillPending.length = waiting := by
        rw [List.length_eraseIdx_of_lt index.isLt]
        have inBounds := index.isLt
        omega
      apply (ih _ _ fewer).mono
      intro later _ perm
      rw [← same]
      have split := ((List.getElem_cons_eraseIdx_perm index.isLt).append_right stillPending).map
        (completionOf outcome)
      exact (perm.cons _).trans split

/-- The bounded fan-out returns the outcomes in input order, whatever the cap. -/
theorem buffered_settles {cap : Nat} (positive : 0 < cap) (inputs : List I) :
    Settles (schedules outcome) (fun outcomes _ => outcomes = (enumerate inputs).map outcome)
      (buffered cap (enumerate inputs)) () := by
  apply Settles.seq (bufferUnordered_settles positive _ _ _ (by simp))
  intro completions _ perm
  have increasing : (((enumerate inputs).map (completionOf outcome)).map Prod.fst).Pairwise
      (· < ·) := by
    rw [List.map_map]
    change ((enumerate inputs).map Job.index).Pairwise (· < ·)
    rw [enumerate_map_index]
    exact List.pairwise_lt_range
  change (completions.mergeSort _).map Prod.snd = _
  rw [Keyed.mergeSort_of_perm perm increasing, List.map_map]
  rfl

/-- Both concurrent paths return the outcomes in input order. -/
theorem fanOut_settles (maxInFlight : Nat) (inputs : List I) :
    Settles (schedules outcome) (fun outcomes _ => outcomes = (enumerate inputs).map outcome)
      (fanOut maxInFlight (enumerate inputs)) () := by
  unfold fanOut
  by_cases uncapped : maxInFlight = 0
  · rw [if_pos uncapped]
    exact joinAll_settles _ (by simp [List.nodup_range])
  · rw [if_neg uncapped]
    exact buffered_settles (Nat.pos_of_ne_zero uncapped) inputs

/-- Awaiting each call before the next returns the outcomes in input order. -/
theorem oneByOne_settles (jobs : List (Job I)) :
    Settles (schedules outcome) (fun outcomes _ => outcomes = jobs.map outcome)
      (oneByOne jobs) () := by
  induction jobs with
  | nil => exact rfl
  | cons job rest ih =>
      apply Settles.seq (executeOne_settles job)
      intro result _ resultIs
      apply Settles.seq ih
      intro later _ laterIs
      rw [resultIs, laterIs]
      rfl

end AltairRs.Wf
