import Mathlib.Data.List.Sort
import Mathlib.Logic.Function.Basic

/-!
# Values under distinct keys

Lists of key-value pairs whose keys do not repeat: looking a key up finds its
value wherever it stands, sorting by key undoes any shuffling, and entering the
pairs one by one leaves each value under its key.
-/

namespace Keyed

universe u v

variable {κ : Type u} {ν : Type v}

/-- With distinct keys, a key is bound to the one value listed under it. -/
theorem lookup_eq_some_iff [DecidableEq κ] {entries : List (κ × ν)}
    (distinct : (entries.map Prod.fst).Nodup) (key : κ) (value : ν) :
    entries.lookup key = some value ↔ (key, value) ∈ entries := by
  induction entries with
  | nil => simp
  | cons entry rest ih =>
      obtain ⟨fresh, restDistinct⟩ := List.nodup_cons.mp distinct
      by_cases same : key = entry.1
      · subst same
        have notLater : (entry.1, value) ∉ rest := fun member =>
          fresh (List.mem_map.mpr ⟨_, member, rfl⟩)
        rw [List.lookup_cons, beq_self_eq_true, List.mem_cons, Option.some_inj]
        constructor
        · rintro rfl
          exact .inl rfl
        · rintro (isEntry | later)
          · rw [← isEntry]
          · exact absurd later notLater
      · have different : (key == entry.1) = false := beq_false_of_ne same
        have notHead : (key, value) ≠ entry := by
          rintro rfl
          exact same rfl
        rw [List.lookup_cons, different, List.mem_cons, ih restDistinct]
        simp [notHead]

/-- Sorting by key restores a list whose keys increase from any shuffling of it. -/
theorem mergeSort_of_perm [LinearOrder κ] {shuffled ordered : List (κ × ν)}
    (perm : shuffled.Perm ordered) (increasing : (ordered.map Prod.fst).Pairwise (· < ·)) :
    (shuffled.mergeSort fun first second => first.1 ≤ second.1) = ordered := by
  have strict : ordered.Pairwise fun first second => first.1 < second.1 :=
    List.pairwise_map.mp increasing
  have distinct : (ordered.map Prod.fst).Nodup := increasing.imp fun less => less.ne
  have sortedPerm :=
    (List.mergeSort_perm shuffled fun first second => first.1 ≤ second.1).trans perm
  have sorted : (shuffled.mergeSort fun first second => first.1 ≤ second.1).Pairwise
      fun first second => decide (first.1 ≤ second.1) = true := by
    apply List.pairwise_mergeSort
    · intro first second third below above
      rw [decide_eq_true_eq] at below above ⊢
      exact below.trans above
    · intro first second
      simp [le_total]
  refine sortedPerm.eq_of_pairwise ?_ sorted (strict.imp fun less => decide_eq_true less.le)
  intro first second inFirst inSecond below above
  have same : first.1 = second.1 :=
    le_antisymm (of_decide_eq_true below) (of_decide_eq_true above)
  exact List.inj_on_of_nodup_map distinct (sortedPerm.subset inFirst) inSecond same

/-- Enter the values one after another, each under its key. -/
def enterAll [DecidableEq κ] (entries : List (κ × ν)) (map : κ → Option ν) : κ → Option ν :=
  entries.foldl (fun map entry => Function.update map entry.1 (some entry.2)) map

@[simp] theorem enterAll_cons [DecidableEq κ] (entry : κ × ν) (rest : List (κ × ν))
    (map : κ → Option ν) :
    enterAll (entry :: rest) map = enterAll rest (Function.update map entry.1 (some entry.2)) :=
  rfl

/-- The last entry is entered last. -/
theorem enterAll_concat [DecidableEq κ] (entries : List (κ × ν)) (key : κ) (value : ν)
    (map : κ → Option ν) :
    enterAll (entries ++ [(key, value)]) map =
      Function.update (enterAll entries map) key (some value) := by
  rw [enterAll, List.foldl_append]
  rfl

/-- With distinct keys, each entered value stands under its key, and elsewhere
nothing has changed. -/
theorem enterAll_apply [DecidableEq κ] [BEq κ] [LawfulBEq κ] {entries : List (κ × ν)}
    (distinct : (entries.map Prod.fst).Nodup) (map : κ → Option ν) (key : κ) :
    enterAll entries map key = (entries.lookup key).or (map key) := by
  induction entries generalizing map with
  | nil => rfl
  | cons entry rest ih =>
      obtain ⟨fresh, restDistinct⟩ := List.nodup_cons.mp distinct
      rw [enterAll_cons, ih restDistinct, List.lookup_cons]
      by_cases same : key = entry.1
      · subst same
        have notLater : rest.lookup entry.1 = none :=
          List.lookup_eq_none_iff.mpr fun other member =>
            bne_iff_ne.mpr fun isKey => fresh (isKey ▸ List.mem_map_of_mem member)
        rw [notLater, beq_self_eq_true, Function.update_self]
        rfl
      · have different : (key == entry.1) = false := beq_false_of_ne same
        rw [different, Function.update_of_ne same]

/-- What stands under a key was entered, or stood there before. -/
theorem mem_of_enterAll [DecidableEq κ] {entries : List (κ × ν)} {map : κ → Option ν} {key : κ}
    {value : ν} (stands : enterAll entries map key = some value) :
    (key, value) ∈ entries ∨ map key = some value := by
  induction entries generalizing map with
  | nil => exact .inr stands
  | cons entry rest ih =>
      rw [enterAll_cons] at stands
      rcases ih stands with later | before
      · exact .inl (List.mem_cons_of_mem _ later)
      · by_cases same : key = entry.1
        · subst same
          rw [Function.update_self] at before
          cases before
          exact .inl List.mem_cons_self
        · rw [Function.update_of_ne same] at before
          exact .inr before

end Keyed
