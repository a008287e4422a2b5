import Mathlib.Data.List.Induction
import AltairRs.Data.Overlay

/-!
# Layers of trees

Trees laid over each other in order. At every path the last one decides that says
something there: it has the path, or a content of it stands on the way. What it has is
found, and of the layers below it nothing is left.
-/

namespace Data

universe u v

variable {κ : Type u} {α : Type v}

variable [DecidableEq κ]

/-- Nothing laid over a forest leaves it. -/
theorem Forest.merge_nil (forest : Forest κ α) : forest.merge .nil = forest := by
  induction forest with
  | nil => rfl
  | leaf name content rest ih => exact congrArg (Forest.leaf name content) ih
  | branch name children rest _ ih => exact congrArg (Forest.branch name children) ih

namespace Node

/-- The node has the path, or is in its way. -/
def Speaks (node : Node κ α) (path : List κ) : Prop :=
  (∃ kind, node.find path = some kind) ∨ node.Blocks path

/-- The layers in order, each laid over those before it. -/
def overlay (base : Node κ α) (layers : List (Node κ α)) : Node κ α := layers.foldl merge base

/-- Layers are laid one after the other. -/
theorem overlay_append (base : Node κ α) (layers upper : List (Node κ α)) :
    overlay base (layers ++ upper) = overlay (overlay base layers) upper :=
  List.foldl_append

/-- What the layers leave at a path: what the last one has there that says something of
it, or what was there before them. -/
inductive Decided (base : Node κ α) (layers : List (Node κ α)) (path : List κ) :
    Option (Option α) → Prop where
  | last {before node after} (isLast : layers = before ++ node :: after)
      (speaks : node.Speaks path) (silent : ∀ later ∈ after, ¬ later.Speaks path) :
      Decided base layers path (node.find path)
  | unsaid (silent : ∀ layer ∈ layers, ¬ layer.Speaks path) :
      Decided base layers path (base.find path)

variable {lower upper base : Node κ α} {layers : List (Node κ α)} {path : List κ}

/-- Where the upper node speaks the lower one is not seen. -/
theorem find_merge_of_speaks (speaks : upper.Speaks path) :
    (lower.merge upper).find path = upper.find path := by
  rcases speaks with ⟨kind, isKind⟩ | isBlocked
  · rw [isKind, find_merge_of_some isKind]
  · rw [find_eq_none_of_blocks isBlocked, find_merge_of_blocks isBlocked]

/-- Where it is silent the lower one is left. -/
theorem find_merge_of_silent (silent : ¬ upper.Speaks path) :
    (lower.merge upper).find path = lower.find path := by
  obtain ⟨nothing, isFree⟩ := not_or.mp silent
  exact find_merge_of_free (Option.eq_none_iff_forall_ne_some.mpr (not_exists.mp nothing)) isFree

/-- Silent layers leave what is below them. -/
theorem find_overlay_of_silent (silent : ∀ layer ∈ layers, ¬ layer.Speaks path) :
    (overlay base layers).find path = base.find path := by
  induction layers generalizing base with
  | nil => rfl
  | cons layer rest ih =>
      obtain ⟨isSilent, restSilent⟩ := List.forall_mem_cons.mp silent
      exact (ih restSilent).trans (find_merge_of_silent isSilent)

/-- Some layer is the last to speak, or none speaks. -/
theorem exists_decided (base : Node κ α) (layers : List (Node κ α)) (path : List κ) :
    ∃ found, Decided base layers path found := by
  induction layers using List.reverseRecOn with
  | nil => exact ⟨_, .unsaid nofun⟩
  | append_singleton layers upper ih =>
      by_cases speaks : upper.Speaks path
      · exact ⟨_, .last rfl speaks nofun⟩
      · obtain ⟨found, decided⟩ := ih
        have silent : ∀ layer ∈ [upper], ¬ layer.Speaks path := List.forall_mem_singleton.mpr speaks
        cases decided with
        | @last before node after isLast nodeSpeaks laterSilent =>
            have stays : layers ++ [upper] = before ++ node :: (after ++ [upper]) := by
              rw [isLast, List.append_assoc, List.cons_append]
            exact ⟨_, .last stays nodeSpeaks (List.forall_mem_append.mpr ⟨laterSilent, silent⟩)⟩
        | unsaid noneSpeaks =>
            exact ⟨_, .unsaid (List.forall_mem_append.mpr ⟨noneSpeaks, silent⟩)⟩

/-- At every path the last layer decides that says something of it. -/
theorem decided_iff {found : Option (Option α)} :
    Decided base layers path found ↔ (overlay base layers).find path = found := by
  have sound : ∀ {found}, Decided base layers path found →
      (overlay base layers).find path = found := by
    intro found decided
    cases decided with
    | last isLast speaks silent =>
        rw [isLast, overlay_append]
        exact (find_overlay_of_silent silent).trans (find_merge_of_speaks speaks)
    | unsaid silent => exact find_overlay_of_silent silent
  constructor
  · exact sound
  · rintro rfl
    obtain ⟨found, decided⟩ := exists_decided base layers path
    rwa [sound decided]

end Node

end Data
