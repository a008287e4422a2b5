import Mathlib.Data.List.Sublists
import Mathlib.Data.List.Infix

/-!
# Replacing patterns in texts

A rule replaces every occurrence of its pattern, from the left and without overlap.
Where no occurrence crosses the end of a segment, a text is replaced segment by
segment.

Several keys come with rules of their own, which are applied key by key to the whole
text. `Separates` cuts the text into pieces with at most one owner each, so that a key
only ever finds its patterns in its own pieces; then the order of the keys is of no
consequence.
-/

namespace Replacement

universe u v

variable {α : Type u} {κ : Type v}

/-- A stretch of a text, in which a rule may apply or not. -/
structure Segment (α : Type u) where
  own : Bool
  text : List α

/-- The text that the segments make up. -/
def flat (segments : List (Segment α)) : List α := segments.flatMap Segment.text

@[simp] theorem flat_nil : flat ([] : List (Segment α)) = [] := rfl

@[simp] theorem flat_cons (segment : Segment α) (rest : List (Segment α)) :
    flat (segment :: rest) = segment.text ++ flat rest := rfl

/-- A stretch of a text that concerns one key at most. -/
structure Piece (κ : Type v) (α : Type u) where
  owner : Option κ
  text : List α

/-- The text that the pieces make up. -/
def textOf (pieces : List (Piece κ α)) : List α := pieces.flatMap Piece.text

/-- A piece as a key sees it. -/
def Piece.segment [DecidableEq κ] (key : κ) (piece : Piece κ α) : Segment α where
  own := piece.owner = some key
  text := piece.text

/-- The text of segments is that of the pieces. -/
theorem flat_segments [DecidableEq κ] (key : κ) (pieces : List (Piece κ α)) :
    flat (pieces.map (Piece.segment key)) = textOf pieces := by
  induction pieces with
  | nil => rfl
  | cons piece rest ih =>
      rw [List.map_cons, flat_cons, ih]
      rfl

variable [DecidableEq α]

/-- Replace a pattern, which is not empty. -/
structure Rule (α : Type u) where
  pattern : List α
  replacement : List α
  nonempty : pattern ≠ []

/-- The scan of a text; the first `skip` elements belong to the occurrence before. -/
def Rule.scan (rule : Rule α) : Nat → List α → List α
  | _, [] => []
  | skip + 1, _ :: rest => rule.scan skip rest
  | 0, first :: rest =>
      if rule.pattern <+: first :: rest then
        rule.replacement ++ rule.scan (rule.pattern.length - 1) rest
      else
        first :: rule.scan 0 rest

/-- Replace every occurrence. -/
def Rule.apply (rule : Rule α) (text : List α) : List α := rule.scan 0 text

@[simp] theorem Rule.scan_nil (rule : Rule α) (skip : Nat) : rule.scan skip [] = [] := by
  cases skip <;> rfl

/-- If every occurrence that starts in a text ends in it, the scan starts anew after it. -/
theorem Rule.scan_append (rule : Rule α) {skip : Nat} {text rest : List α}
    (skipped : skip ≤ text.length)
    (ends : ∀ i, skip ≤ i → i < text.length → rule.pattern <+: (text ++ rest).drop i →
      i + rule.pattern.length ≤ text.length) :
    rule.scan skip (text ++ rest) = rule.scan skip text ++ rule.scan 0 rest := by
  induction text generalizing skip with
  | nil =>
      obtain rfl : skip = 0 := Nat.le_zero.mp skipped
      rw [List.nil_append, Rule.scan_nil, List.nil_append]
  | cons first text ih =>
      have later : ∀ {next}, skip ≤ next + 1 → ∀ i, next ≤ i → i < text.length →
          rule.pattern <+: (text ++ rest).drop i → i + rule.pattern.length ≤ text.length := by
        intro next isNext i after inside occurs
        have whole := ends (i + 1) (by omega) (by simpa using inside) (by simpa using occurs)
        simp only [List.length_cons] at whole
        omega
      cases skip with
      | succ skip =>
          simp only [List.cons_append, Rule.scan]
          exact ih (by simpa using skipped) (later (Nat.le_refl _))
      | zero =>
          simp only [List.cons_append, Rule.scan]
          by_cases occurs : rule.pattern <+: first :: (text ++ rest)
          · have fits := ends 0 (Nat.le_refl _) (by simp) (by simpa using occurs)
            rw [Nat.zero_add] at fits
            have occursHere : rule.pattern <+: first :: text :=
              List.prefix_of_prefix_length_le occurs (List.prefix_append (first :: text) rest) fits
            rw [if_pos occurs, if_pos occursHere, ih ?_ (later (Nat.zero_le _)), List.append_assoc]
            simp only [List.length_cons] at fits
            omega
          · have absent : ¬ rule.pattern <+: first :: text := fun occursHere =>
              occurs (occursHere.trans (List.prefix_append (first :: text) rest))
            rw [if_neg occurs, if_neg absent, ih (Nat.zero_le _) (later (Nat.zero_le _))]
            rfl

/-- If no occurrence starts in a text, the scan passes it. -/
theorem Rule.scan_of_absent (rule : Rule α) {text rest : List α}
    (absent : ∀ i < text.length, ¬ rule.pattern <+: (text ++ rest).drop i) :
    rule.scan 0 (text ++ rest) = text ++ rule.scan 0 rest := by
  induction text with
  | nil => rfl
  | cons first text ih =>
      have notHere : ¬ rule.pattern <+: first :: (text ++ rest) := by
        simpa using absent 0 (by simp)
      simp only [List.cons_append, Rule.scan, if_neg notHere]
      rw [ih fun i inside => ?_]
      simpa using absent (i + 1) (by simpa using inside)

/-- Every occurrence of the pattern lies within a segment in which the rule may apply. -/
def Rule.Confined (rule : Rule α) : List (Segment α) → Prop
  | [] => True
  | segment :: rest =>
      (∀ i < segment.text.length, rule.pattern <+: (segment.text ++ flat rest).drop i →
        segment.own = true ∧ i + rule.pattern.length ≤ segment.text.length) ∧ rule.Confined rest

instance Rule.decidableConfined (rule : Rule α) :
    (segments : List (Segment α)) → Decidable (rule.Confined segments)
  | [] => .isTrue trivial
  | _ :: rest =>
      have := rule.decidableConfined rest
      inferInstanceAs (Decidable (_ ∧ _))

/-- Apply a rule to a segment if it may apply there. -/
def Rule.rewrite (rule : Rule α) (segment : Segment α) : Segment α :=
  if segment.own then { segment with text := rule.apply segment.text } else segment

/-- A rule whose occurrences are confined is applied segment by segment. -/
theorem Rule.Confined.apply_flat {rule : Rule α} {segments : List (Segment α)}
    (confined : rule.Confined segments) :
    rule.apply (flat segments) = flat (segments.map rule.rewrite) := by
  induction segments with
  | nil => rfl
  | cons segment rest ih =>
      obtain ⟨here, later⟩ := confined
      rw [List.map_cons, flat_cons, flat_cons, ← ih later]
      cases isOwn : segment.own with
      | true =>
          rw [Rule.rewrite, if_pos isOwn]
          refine rule.scan_append (Nat.zero_le _) fun i _ inside occurs => ?_
          exact (here i inside occurs).2
      | false =>
          rw [Rule.rewrite, if_neg (by rw [isOwn]; nofun)]
          refine rule.scan_of_absent fun i inside occurs => ?_
          cases isOwn.symm.trans (here i inside occurs).1

/-- Apply one rule after another. -/
def applyAll (rules : List (Rule α)) (text : List α) : List α :=
  rules.foldl (fun text rule => rule.apply text) text

/-- The occurrences of each rule are confined when its turn comes. -/
def ConfinedAll : List (Rule α) → List (Segment α) → Prop
  | [], _ => True
  | rule :: rules, segments =>
      rule.Confined segments ∧ ConfinedAll rules (segments.map rule.rewrite)

instance decidableConfinedAll : (rules : List (Rule α)) → (segments : List (Segment α)) →
    Decidable (ConfinedAll rules segments)
  | [], _ => .isTrue trivial
  | rule :: rules, segments =>
      have := decidableConfinedAll rules (segments.map rule.rewrite)
      inferInstanceAs (Decidable (_ ∧ _))

/-- Apply several rules to a segment if they may apply there. -/
def rewriteAll (rules : List (Rule α)) (segment : Segment α) : Segment α :=
  if segment.own then { segment with text := applyAll rules segment.text } else segment

/-- The rules are used one after the other. -/
theorem rewriteAll_cons (rule : Rule α) (rules : List (Rule α)) (segment : Segment α) :
    rewriteAll (rule :: rules) segment = rewriteAll rules (rule.rewrite segment) := by
  cases isOwn : segment.own <;> simp [rewriteAll, Rule.rewrite, isOwn, applyAll]

/-- Rules that are confined rewrite segment by segment. -/
theorem ConfinedAll.applyAll_flat {rules : List (Rule α)} {segments : List (Segment α)}
    (confined : ConfinedAll rules segments) :
    applyAll rules (flat segments) = flat (segments.map (rewriteAll rules)) := by
  induction rules generalizing segments with
  | nil =>
      have same : rewriteAll ([] : List (Rule α)) = id := by
        ext segment
        exact ite_self segment
      rw [same, List.map_id]
      rfl
  | cons rule rules ih =>
      obtain ⟨first, later⟩ := confined
      have composed : rewriteAll (rule :: rules) = rewriteAll rules ∘ rule.rewrite := by
        ext segment
        exact rewriteAll_cons rule rules segment
      rw [composed, ← List.map_map, ← ih later, ← first.apply_flat]
      rfl

variable [DecidableEq κ]

/-- A piece once these keys have had their turn. -/
def Piece.render (rules : κ → List (Rule α)) (done : List κ) (piece : Piece κ α) : Piece κ α :=
  match piece.owner with
  | some key => if key ∈ done then { piece with text := applyAll (rules key) piece.text } else piece
  | none => piece

/-- Whichever keys have had their turn, every other key finds its patterns only within
its own pieces. -/
def Separates (rules : κ → List (Rule α)) (keys : List κ) (pieces : List (Piece κ α)) : Prop :=
  ∀ done ∈ keys.sublists, ∀ key ∈ keys, key ∉ done →
    ConfinedAll (rules key) ((pieces.map (Piece.render rules done)).map (Piece.segment key))

instance decidableSeparates (rules : κ → List (Rule α)) (keys : List κ)
    (pieces : List (Piece κ α)) : Decidable (Separates rules keys pieces) :=
  inferInstanceAs (Decidable (∀ done ∈ keys.sublists, ∀ key ∈ keys, _ → _))

/-- Give every key its turn. -/
def applyKeys (rules : κ → List (Rule α)) (order : List κ) (text : List α) : List α :=
  order.foldl (fun text key => applyAll (rules key) text) text

variable {rules : κ → List (Rule α)} {keys : List κ} {pieces : List (Piece κ α)}

/-- What a piece becomes depends only on which keys have had their turn. -/
theorem Piece.render_congr {done other : List κ} (same : ∀ key, key ∈ done ↔ key ∈ other)
    (piece : Piece κ α) : piece.render rules done = piece.render rules other := by
  unfold Piece.render
  cases piece.owner with
  | none => rfl
  | some key => simp only [same key]

/-- The turn of a key that has not had one. -/
theorem Piece.render_concat {done : List κ} {key : κ} (fresh : key ∉ done) (piece : Piece κ α) :
    (rewriteAll (rules key) ((piece.render rules done).segment key)).text =
      (piece.render rules (done ++ [key])).text := by
  obtain ⟨_ | owner, text⟩ := piece
  · simp [Piece.render, Piece.segment, rewriteAll]
  · by_cases same : owner = key
    · subst same
      simp [Piece.render, Piece.segment, rewriteAll, fresh]
    · by_cases isDone : owner ∈ done <;>
        simp [Piece.render, Piece.segment, rewriteAll, isDone, same]

/-- In any order the keys come to the text of the rendered pieces. -/
theorem Separates.applyKeys (separates : Separates rules keys pieces) {order : List κ}
    (nodup : order.Nodup) (within : ∀ key ∈ order, key ∈ keys) :
    applyKeys rules order (textOf pieces) = textOf (pieces.map (Piece.render rules order)) := by
  induction order using List.reverseRecOn with
  | nil =>
      have same : Piece.render rules ([] : List κ) = id := by
        ext piece
        obtain ⟨_ | owner, text⟩ := piece <;> simp [Piece.render]
      rw [same, List.map_id]
      rfl
  | append_singleton before key ih =>
      obtain ⟨beforeNodup, -, apart⟩ := List.nodup_append.mp nodup
      have fresh : key ∉ before := fun member => apart key member key List.mem_cons_self rfl
      have earlier : ∀ key ∈ before, key ∈ keys := fun key member =>
        within key (List.mem_append_left _ member)
      -- The sublist of the keys that stands for those before.
      have sameDone : ∀ key, key ∈ keys.filter (· ∈ before) ↔ key ∈ before := fun key => by
        rw [List.mem_filter, decide_eq_true_eq]
        exact ⟨And.right, fun member => ⟨earlier key member, member⟩⟩
      have confined := separates (keys.filter (· ∈ before))
        (List.mem_sublists.mpr List.filter_sublist) key
        (within key (List.mem_append_right _ List.mem_cons_self)) (mt (sameDone key).mp fresh)
      have rendered : Piece.render rules (keys.filter (· ∈ before)) = Piece.render rules before :=
        funext (Piece.render_congr sameDone)
      rw [rendered] at confined
      have turn := confined.applyAll_flat
      rw [flat_segments, ← ih beforeNodup earlier] at turn
      rw [Replacement.applyKeys, List.foldl_append]
      refine turn.trans ?_
      simp only [flat, textOf, List.flatMap_map, Piece.render_concat fresh]

/-- The order of the keys is of no consequence. -/
theorem Separates.order_free (separates : Separates rules keys pieces) (nodup : keys.Nodup)
    {order : List κ} (perm : order.Perm keys) :
    Replacement.applyKeys rules order (textOf pieces) =
      Replacement.applyKeys rules keys (textOf pieces) := by
  rw [separates.applyKeys (perm.nodup_iff.mpr nodup) fun _ => perm.mem_iff.mp,
    separates.applyKeys nodup fun _ => id]
  congr 2
  ext piece
  exact piece.render_congr fun key => perm.mem_iff

end Replacement
