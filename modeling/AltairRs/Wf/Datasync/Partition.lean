import Mathlib.Data.List.Chain
import Mathlib.Order.Lattice
import AltairRs.Wf.Error

/-!
# Partitions and sync summaries

Half-open key ranges, the result of one partition, and the summary of one
execution. `Partition.new` validates nothing; `PartitionPlan` is the partitioner
output every sync property is about: proper ranges, in order, without overlap.
-/

namespace AltairRs.Wf.Datasync

/-- Half-open key range from `start` up to, not including, `endKey`. -/
structure Partition (K : Type) where
  start : K
  endKey : K
deriving DecidableEq, Repr

/-- Build a partition without validating the order of its keys. -/
def Partition.new {K : Type} (start endKey : K) : Partition K := ⟨start, endKey⟩

/-- Build a partition, rejecting an empty or inverted range. -/
def Partition.tryNew {K : Type} [LinearOrder K] [DebugText K] (start endKey : K) :
    Result (Partition K) :=
  if endKey ≤ start then
    .error (.invalidInput
      s!"partition end ({DebugText.debug endKey}) must be > start ({DebugText.debug start})")
  else
    .ok ⟨start, endKey⟩

/-- Outcome of one partition. -/
structure PartitionResult (K : Type) where
  start : K
  endKey : K
  fetched : Nat
  inserted : Nat
  updated : Nat
  skipped : Nat
deriving DecidableEq, Repr

/-- Aggregate of every partition one execution handled. -/
structure ChunkedSyncSummary (K : Type) where
  jobName : String := ""
  totalPartitions : Nat := 0
  totalFetched : Nat := 0
  totalInserted : Nat := 0
  totalUpdated : Nat := 0
  totalSkipped : Nat := 0
  partitions : List (PartitionResult K) := []
  deferred : Bool := false
deriving DecidableEq, Repr

/-- The accumulator update after one successful partition. -/
def ChunkedSyncSummary.record {K : Type} (summary : ChunkedSyncSummary K)
    (result : PartitionResult K) : ChunkedSyncSummary K :=
  { summary with
    totalPartitions := summary.totalPartitions + 1
    totalFetched := summary.totalFetched + result.fetched
    totalInserted := summary.totalInserted + result.inserted
    totalUpdated := summary.totalUpdated + result.updated
    totalSkipped := summary.totalSkipped + result.skipped
    partitions := summary.partitions ++ [result] }

/-- A range `tryNew` accepts. -/
def Partition.Proper {K : Type} [LinearOrder K] (partition : Partition K) : Prop :=
  partition.start < partition.endKey

/-- Exactly the proper ranges can be built with validation. -/
theorem Partition.tryNew_eq_ok_iff {K : Type} [LinearOrder K] [DebugText K] {start endKey : K}
    {partition : Partition K} :
    Partition.tryNew start endKey = .ok partition ↔
      partition = ⟨start, endKey⟩ ∧ partition.Proper := by
  unfold Partition.tryNew Partition.Proper
  split
  · rename_i inverted
    constructor
    · intro impossible
      cases impossible
    · rintro ⟨rfl, proper⟩
      exact absurd proper (not_lt.mpr inverted)
  · rename_i proper
    constructor
    · intro same
      cases same
      exact ⟨rfl, not_le.mp proper⟩
    · rintro ⟨rfl, _⟩
      rfl

/-- A partitioner's output: proper ranges, each ending where or before the next
one starts. -/
structure PartitionPlan (K : Type) [LinearOrder K] where
  parts : List (Partition K)
  proper : ∀ partition ∈ parts, partition.Proper
  ordered : parts.IsChain fun first second => first.endKey ≤ second.start

/-- Two adjacent ranges. -/
def twoPartitions : PartitionPlan Nat where
  parts := [⟨0, 10⟩, ⟨10, 20⟩]
  proper := by simp [Partition.Proper]
  ordered := by simp

/-- In a plan every partition ends before any later one starts. -/
theorem PartitionPlan.disjoint {K : Type} [LinearOrder K] (plan : PartitionPlan K) :
    plan.parts.Pairwise fun first second => first.endKey ≤ second.start := by
  obtain ⟨parts, proper, ordered⟩ := plan
  induction parts with
  | nil => exact .nil
  | cons head tail ih =>
      have tailProper : ∀ partition ∈ tail, partition.Proper :=
        fun partition member => proper partition (List.mem_cons_of_mem _ member)
      have tailDisjoint := ih tailProper ordered.tail
      refine List.pairwise_cons.mpr ⟨fun later member => ?_, tailDisjoint⟩
      cases tail with
      | nil => cases member
      | cons next rest =>
          have adjacent : head.endKey ≤ next.start := (List.isChain_cons_cons.mp ordered).1
          rcases List.mem_cons.mp member with rfl | inRest
          · exact adjacent
          · have skip := (List.pairwise_cons.mp tailDisjoint).1 later inRest
            have nextProper := tailProper next List.mem_cons_self
            exact adjacent.trans (nextProper.le.trans skip)

end AltairRs.Wf.Datasync
