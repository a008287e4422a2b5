/-!
# Early return

Rules for `Except` computations: inversion of a bind and of a loop that stops at
its first error, and the errors a computation may stop with.
-/

namespace Effect

universe u v

variable {ε : Type u} {α β : Type v}

/-- A sequence succeeds exactly when both parts do. -/
theorem bind_eq_ok_iff {first : Except ε α} {next : α → Except ε β} {value : β} :
    (first >>= next) = .ok value ↔ ∃ middle, first = .ok middle ∧ next middle = .ok value := by
  cases first with
  | error e =>
      constructor
      · intro impossible
        cases impossible
      · rintro ⟨_, impossible, _⟩
        cases impossible
  | ok middle =>
      constructor
      · intro returned
        exact ⟨middle, rfl, returned⟩
      · rintro ⟨_, same, returned⟩
        cases same
        exact returned

/-- A guarded computation succeeds exactly when the guard lets it pass and it succeeds. -/
theorem guarded_eq_ok_iff {ε α : Type} {condition : Prop} [Decidable condition] {e : ε}
    {next : Except ε α} {value : α} :
    (do if condition then Except.error e
        next : Except ε α) = .ok value ↔ ¬ condition ∧ next = .ok value := by
  by_cases holds : condition
  · rw [if_pos holds]
    refine iff_of_false ?_ fun both => both.1 holds
    intro returned
    cases returned
  · rw [if_neg holds]
    exact (and_iff_right holds).symm

/-- A loop without an accumulator succeeds exactly when every turn does. -/
theorem forM_eq_ok_iff {items : List α} {body : α → Except ε PUnit} :
    forM items body = .ok ⟨⟩ ↔ ∀ item ∈ items, body item = .ok ⟨⟩ := by
  induction items with
  | nil => exact ⟨fun _ _ member => (nomatch member), fun _ => rfl⟩
  | cons item rest ih =>
      rw [List.forM_cons, bind_eq_ok_iff]
      constructor
      · rintro ⟨_, first, later⟩ other member
        rcases List.mem_cons.mp member with rfl | inRest
        · exact first
        · exact ih.mp later other inRest
      · intro all
        exact ⟨⟨⟩, all item List.mem_cons_self,
          ih.mpr fun other member => all other (List.mem_cons_of_mem _ member)⟩

@[simp] theorem mapError_error {ε' : Type u} (rewrite : ε → ε') (e : ε) :
    (Except.error e : Except ε α).mapError rewrite = .error (rewrite e) := rfl

@[simp] theorem mapError_ok {ε' : Type u} (rewrite : ε → ε') (value : α) :
    (Except.ok value : Except ε α).mapError rewrite = .ok value := rfl

/-- Rewriting the error of a computation keeps its successes. -/
theorem mapError_eq_ok_iff {ε' : Type u} {rewrite : ε → ε'} {computation : Except ε α}
    {value : α} : computation.mapError rewrite = .ok value ↔ computation = .ok value := by
  cases computation with
  | error e => simp
  | ok other => simp

/-- The computation stops with allowed errors only. -/
def FailsWith (allowed : ε → Prop) (computation : Except ε α) : Prop :=
  ∀ e, computation = .error e → allowed e

namespace FailsWith

variable {allowed : ε → Prop}

/-- A value is no failure. -/
theorem ok (value : α) : FailsWith allowed (.ok value : Except ε α) :=
  nofun

/-- A permitted error. -/
theorem error {e : ε} (permitted : allowed e) : FailsWith allowed (.error e : Except ε α) := by
  rintro _ ⟨⟩
  exact permitted

/-- A sequence stops with an error of its first or its second part. -/
theorem bind {first : Except ε α} {next : α → Except ε β} (fails : FailsWith allowed first)
    (later : ∀ value, FailsWith allowed (next value)) : FailsWith allowed (first >>= next) := by
  cases first with
  | error e => exact fun other same => fails other (congrArg Except.error (Except.error.inj same))
  | ok value => exact later value

/-- A loop stops with an error of one of its turns. -/
theorem forM {items : List α} {body : α → Except ε PUnit}
    (turn : ∀ item, FailsWith allowed (body item)) : FailsWith allowed (forM items body) := by
  induction items with
  | nil => exact ok _
  | cons item rest ih =>
      rw [List.forM_cons]
      exact (turn item).bind fun _ => ih

/-- Rewritten errors are of the rewritten form. -/
theorem mapError {ε' : Type u} {rewrite : ε' → ε} {computation : Except ε' α}
    (permitted : ∀ e, allowed (rewrite e)) : FailsWith allowed (computation.mapError rewrite) := by
  cases computation with
  | error e => exact error (permitted e)
  | ok value => exact ok value

end FailsWith

end Effect
