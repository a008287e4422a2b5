/-!
# Futures polled by a clock

A future keeps a state, and every reading of a clock polls it until it is ready. It
stands somewhere at a reading as long as no poll before has been ready, and it has
returned by a reading exactly what the first ready poll before came to.
-/

namespace Run

universe u v

/-- Where a future starts, and what a poll makes of its state. -/
structure Future (State : Type u) (Value : Type v) where
  start : State
  poll : Nat → State → State × Option Value

namespace Future

variable {State : Type u} {Value : Type v} (future : Future State Value)

/-- Where a future is left by so many readings, and when it returned what. -/
def run : Nat → State × Option (Nat × Value)
  | 0 => (future.start, none)
  | now + 1 =>
      match run now with
      | (state, some returned) => (state, some returned)
      | (state, none) =>
          ((future.poll now state).1, (future.poll now state).2.map fun value => (now, value))

/-- The future stands here at a reading. -/
inductive Pending : Nat → State → Prop where
  | start : Pending 0 future.start
  | poll {now state next} (pending : Pending now state)
      (unready : future.poll now state = (next, none)) : Pending (now + 1) next

variable {future} {now readings : Nat} {state : State} {value : Value}

/-- A future that has not returned stands where its run has left it. -/
theorem pending_iff : future.Pending now state ↔ future.run now = (state, none) := by
  induction now generalizing state with
  | zero =>
      constructor
      · rintro ⟨⟩
        rfl
      · intro isStart
        obtain rfl : future.start = state := congrArg Prod.fst isStart
        exact .start
  | succ now ih =>
      constructor
      · rintro (_ | ⟨pending, unready⟩)
        rw [run, ih.mp pending]
        simp only [unready, Option.map_none]
      · intro isLeft
        rw [run] at isLeft
        split at isLeft
        · cases isLeft
        · next before isBefore =>
            obtain ⟨isState, unready⟩ := Prod.mk.inj isLeft
            exact .poll (ih.mpr isBefore) (Prod.ext isState (Option.map_eq_none_iff.mp unready))

/-- What a future has returned is what its first ready poll came to. -/
theorem returned_iff : (future.run readings).2 = some (now, value) ↔
    now < readings ∧
      ∃ state, future.Pending now state ∧ (future.poll now state).2 = some value := by
  induction readings with
  | zero => exact ⟨nofun, fun ⟨below, _⟩ => absurd below (Nat.not_lt_zero _)⟩
  | succ readings ih =>
      rw [run]
      cases isRun : future.run readings with
      | mk before returned =>
          rw [isRun] at ih
          cases returned with
          | some returned =>
              refine ih.trans ⟨fun ⟨below, ready⟩ => ⟨Nat.lt_succ_of_lt below, ready⟩, ?_⟩
              rintro ⟨below, state, pending, ready⟩
              refine ⟨Nat.lt_of_le_of_ne (Nat.le_of_lt_succ below) ?_, state, pending, ready⟩
              rintro rfl
              cases isRun.symm.trans (pending_iff.mp pending)
          | none =>
              have stands : future.Pending readings before := pending_iff.mpr isRun
              constructor
              · intro isReady
                obtain ⟨value', ready, same⟩ := Option.map_eq_some_iff.mp isReady
                obtain ⟨rfl, rfl⟩ := Prod.mk.inj same
                exact ⟨Nat.lt_succ_self _, before, stands, ready⟩
              · rintro ⟨below, state, pending, ready⟩
                rcases Nat.lt_succ_iff_lt_or_eq.mp below with earlier | rfl
                · cases ih.mpr ⟨earlier, state, pending, ready⟩
                · have same : before = state :=
                    congrArg Prod.fst (isRun.symm.trans (pending_iff.mp pending))
                  rw [same]
                  exact Option.map_eq_some_iff.mpr ⟨value, ready, rfl⟩

/-- A future stands somewhere, or has returned. -/
theorem pending_or_returned (future : Future State Value) (readings : Nat) :
    (∃ state, future.Pending readings state) ∨
      ∃ now value, (future.run readings).2 = some (now, value) := by
  cases isRun : future.run readings with
  | mk state returned =>
      cases returned with
      | none => exact .inl ⟨state, pending_iff.mpr isRun⟩
      | some returned => exact .inr ⟨returned.1, returned.2, rfl⟩

end Future

end Run
