import Mathlib.Data.List.Basic
import Mathlib.Order.Lattice

/-!
# Ordered maps

A map as the list of its entries in the order of their keys. The order is a
field, so no key occurs twice, and inserting under a key replaces its entry.
-/

namespace Keyed

universe u v

/-- Entries whose keys increase. -/
structure OrderedMap (κ : Type u) (ν : Type v) [LinearOrder κ] where
  entries : List (κ × ν)
  increasing : entries.Pairwise fun first second => first.1 < second.1

namespace OrderedMap

variable {κ : Type u} {ν : Type v} [LinearOrder κ]

def empty : OrderedMap κ ν := ⟨[], .nil⟩

/-- The entries below the key, the new entry, the entries above the key. -/
def insert (map : OrderedMap κ ν) (key : κ) (value : ν) : OrderedMap κ ν where
  entries := map.entries.filter (·.1 < key) ++ (key, value) :: map.entries.filter (key < ·.1)
  increasing := by
    refine List.pairwise_append.mpr ⟨map.increasing.filter _, ?_, ?_⟩
    · refine List.pairwise_cons.mpr ⟨fun entry member => ?_, map.increasing.filter _⟩
      exact of_decide_eq_true (List.mem_filter.mp member).2
    · intro low lowMember high highMember
      have below : low.1 < key := of_decide_eq_true (List.mem_filter.mp lowMember).2
      rcases List.mem_cons.mp highMember with rfl | above
      · exact below
      · exact below.trans (of_decide_eq_true (List.mem_filter.mp above).2)

/-- Under the key stands the new entry, under every other key the old one. -/
theorem mem_insert (map : OrderedMap κ ν) (key : κ) (value : ν) (entry : κ × ν) :
    entry ∈ (map.insert key value).entries ↔
      entry = (key, value) ∨ entry.1 ≠ key ∧ entry ∈ map.entries := by
  simp only [insert, List.mem_append, List.mem_cons, List.mem_filter, decide_eq_true_eq]
  constructor
  · rintro (⟨member, below⟩ | isNew | ⟨member, above⟩)
    · exact .inr ⟨below.ne, member⟩
    · exact .inl isNew
    · exact .inr ⟨above.ne', member⟩
  · rintro (isNew | ⟨different, member⟩)
    · exact .inr (.inl isNew)
    · rcases lt_or_gt_of_ne different with below | above
      · exact .inl ⟨member, below⟩
      · exact .inr (.inr ⟨member, above⟩)

/-- No key occurs twice. -/
theorem distinct (map : OrderedMap κ ν) : (map.entries.map Prod.fst).Nodup := by
  have increasing : (map.entries.map Prod.fst).Pairwise (· < ·) :=
    List.pairwise_map.mpr map.increasing
  exact increasing.imp fun less => less.ne

/-- Change the values. -/
def map {ν' : Type v} (map : OrderedMap κ ν) (change : ν → ν') : OrderedMap κ ν' where
  entries := map.entries.map fun entry => (entry.1, change entry.2)
  increasing := List.pairwise_map.mpr map.increasing

/-- The value under a key. -/
def lookup (map : OrderedMap κ ν) (key : κ) : Option ν := map.entries.lookup key

/-- An entry is found under its key. -/
theorem lookup_of_mem {map : OrderedMap κ ν} {key : κ} {value : ν}
    (member : (key, value) ∈ map.entries) : map.lookup key = some value := by
  obtain ⟨before, after, isSplit⟩ := List.append_of_mem member
  refine List.lookup_eq_some_iff.mpr ⟨before, after, isSplit, fun entry earlier => ?_⟩
  have increasing := map.increasing
  rw [isSplit, List.pairwise_append] at increasing
  have below : entry.1 < key := increasing.2.2 entry earlier _ List.mem_cons_self
  exact bne_iff_ne.mpr below.ne'

end OrderedMap

end Keyed
