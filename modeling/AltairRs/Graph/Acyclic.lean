import Mathlib.Logic.Relation
import Mathlib.Data.Finset.Card

/-!
# Acyclic relations

A relation is read as an edge relation: `edge a b` leads from `a` to `b`. The
module connects cycles with accessibility along edges, and gives the fact a
layered schedule rests on: a set one of whose members finishes has a member
without an edge into the set.
-/

namespace Graph

universe u

variable {ν : Type u} {edge : ν → ν → Prop}

/-- No nonempty path returns to its origin; self-loops are cycles. -/
def Acyclic (edge : ν → ν → Prop) : Prop :=
  ∀ node, ¬ Relation.TransGen edge node node

/-- Every path from the node along edges is finite. -/
abbrev Finishes (edge : ν → ν → Prop) (node : ν) : Prop :=
  Acc (fun next current => edge current next) node

/-- A node all of whose successors finish finishes. -/
theorem Finishes.of_successors {node : ν} (next : ∀ other, edge node other → Finishes edge other) :
    Finishes edge node :=
  Acc.intro node next

/-- A node on a cycle starts an endless path. -/
theorem Finishes.not_cycle {node : ν} (finishes : Finishes edge node) :
    ¬ Relation.TransGen edge node node := by
  intro cycle
  have back : Relation.TransGen (fun next current => edge current next) node node :=
    Relation.transGen_swap.mpr cycle
  have closed : Acc (Relation.TransGen fun next current => edge current next) node :=
    finishes.transGen
  clear finishes cycle
  induction closed with
  | intro node _ ih => exact ih node back back

/-- A graph in which every node finishes has no cycle. -/
theorem Acyclic.of_finishes (finishes : ∀ node, Finishes edge node) : Acyclic edge :=
  fun node => (finishes node).not_cycle

/-- Edges out of a finite set end there, so an acyclic graph finishes. -/
theorem Acyclic.finishes [DecidableEq ν] (acyclic : Acyclic edge) (nodes : Finset ν)
    (origins : ∀ {node next}, edge node next → node ∈ nodes) (node : ν) :
    Finishes edge node := by
  -- Induction on the set of nodes not yet on the path from the origin.
  have explore : ∀ (fuel : Nat) (fresh : Finset ν) (current : ν), fresh.card ≤ fuel →
      (∀ other ∈ nodes, other ∉ fresh → Relation.TransGen edge other current) →
      Finishes edge current := by
    intro fuel
    induction fuel with
    | zero =>
        intro fresh current small visited
        apply Finishes.of_successors
        intro next step
        have empty : fresh = ∅ := Finset.card_eq_zero.mp (Nat.le_zero.mp small)
        have loop := visited current (origins step) (by simp [empty])
        exact absurd loop (acyclic current)
    | succ fuel ih =>
        intro fresh current small visited
        apply Finishes.of_successors
        intro next step
        have currentFresh : current ∈ fresh := by
          by_contra stale
          exact acyclic current (visited current (origins step) stale)
        refine ih (fresh.erase current) next ?_ fun other member stale => ?_
        · rw [Finset.card_erase_of_mem currentFresh]
          omega
        · by_cases same : other = current
          · subst same
            exact .single step
          · have older : other ∉ fresh := fun inFresh =>
              stale (Finset.mem_erase.mpr ⟨same, inFresh⟩)
            exact (visited other member older).tail step
  exact explore nodes.card nodes node le_rfl fun other member stale => absurd member stale

/-- In a set whose members finish, some member has no edge into the set. -/
theorem exists_sink {members : ν → Prop} {start : ν} (finishes : Finishes edge start)
    (member : members start) : ∃ node, members node ∧ ∀ next, edge node next → ¬ members next := by
  induction finishes with
  | intro node _ ih =>
      by_cases leaves : ∀ next, edge node next → ¬ members next
      · exact ⟨node, member, leaves⟩
      · obtain ⟨next, notLeaving⟩ := Classical.not_forall.mp leaves
        obtain ⟨step, inside⟩ := Classical.not_imp.mp notLeaving
        exact ih next step (Classical.not_not.mp inside)

/-- Along a path listed from its end, the origin of the list is reached from
every listed node. -/
theorem reaches_head {path : List ν} {last : ν}
    (chain : (last :: path).IsChain fun next current => edge current next) :
    ∀ node ∈ last :: path, Relation.ReflTransGen edge node last := by
  induction path generalizing last with
  | nil =>
      intro node member
      rw [List.mem_singleton] at member
      subst member
      exact .refl
  | cons prior path ih =>
      obtain ⟨step, rest⟩ := List.isChain_cons_cons.mp chain
      intro node member
      rcases List.mem_cons.mp member with rfl | earlier
      · exact .refl
      · exact (ih rest node earlier).tail step

end Graph
