import AltairRs.Data.Forest

/-!
# Trees laid over each other

A node is a content or the forest of its children. Laid over a node, another one wins where
both say something, and two forests are merged name by name. `Node.find_merge` says what is
then found at a path: what the upper one has there, or what the lower one has if the upper
one neither has anything there nor has a content on the way.
-/

namespace Data

universe u v

/-- What has a name: a content, or children. -/
inductive Node (κ : Type u) (α : Type v) where
  | leaf (content : α)
  | branch (children : Forest κ α)

variable {κ : Type u} {α : Type v}

/-- One more child. -/
def Node.into (name : κ) (node : Node κ α) (rest : Forest κ α) : Forest κ α :=
  match node with
  | .leaf content => .leaf name content rest
  | .branch children => .branch name children rest

variable [DecidableEq κ]

namespace Forest

/-- The child of a name. -/
def child : Forest κ α → κ → Option (Node κ α)
  | .nil, _ => none
  | .leaf other content rest, name => if name = other then some (.leaf content) else rest.child name
  | .branch other children rest, name =>
      if name = other then some (.branch children) else rest.child name

/-- Take the children of a name away. -/
def remove (name : κ) : Forest κ α → Forest κ α
  | .nil => .nil
  | .leaf other content rest =>
      if name = other then rest.remove name else .leaf other content (rest.remove name)
  | .branch other children rest =>
      if name = other then rest.remove name else .branch other children (rest.remove name)

/-- Lay a forest over another. -/
def merge : Forest κ α → Forest κ α → Forest κ α
  | .nil, upper => upper
  | .leaf name content rest, upper =>
      match upper.child name with
      | none => .leaf name content (rest.merge upper)
      | some node => node.into name (rest.merge (upper.remove name))
  | .branch name children rest, upper =>
      match upper.child name with
      | none => .branch name children (rest.merge upper)
      | some (.leaf content) => .leaf name content (rest.merge (upper.remove name))
      | some (.branch others) =>
          .branch name (children.merge others) (rest.merge (upper.remove name))

end Forest

namespace Node

/-- Lay a node over another. -/
def merge : Node κ α → Node κ α → Node κ α
  | .branch lower, .branch upper => .branch (lower.merge upper)
  | _, upper => upper

/-- What is at a path: the content of a leaf, or `none` for a branch. -/
def find : Node κ α → List κ → Option (Option α)
  | .leaf content, [] => some (some content)
  | .leaf _, _ :: _ => none
  | .branch _, [] => some none
  | .branch children, name :: below =>
      match children.child name with
      | none => none
      | some node => node.find below

/-- The branches that lead to a node. -/
def nest : List κ → Node κ α → Node κ α
  | [], node => node
  | name :: below, node => .branch ((nest below node).into name .nil)

/-- A content stands on the way to a path. -/
def Blocks (node : Node κ α) (path : List κ) : Prop :=
  ∃ above content, above <+: path ∧ above ≠ path ∧ node.find above = some (some content)

end Node

namespace Forest

@[simp] theorem child_into (name other : κ) (node : Node κ α) (rest : Forest κ α) :
    (node.into other rest).child name = if name = other then some node else rest.child name := by
  cases node <;> rfl

/-- Removing one child leaves the others. -/
theorem child_remove_of_ne {name other : κ} (different : name ≠ other) (forest : Forest κ α) :
    (forest.remove other).child name = forest.child name := by
  induction forest with
  | nil => rfl
  | leaf first content rest ih | branch first children rest _ ih =>
      by_cases removed : other = first
      · have notFirst : name ≠ first := fun same => different (same.trans removed.symm)
        rw [remove, if_pos removed, ih, child, if_neg notFirst]
      · rw [remove, if_neg removed, child, child, ih]

/-- Forests are merged name by name. -/
theorem child_merge (lower upper : Forest κ α) (name : κ) :
    (lower.merge upper).child name =
      match lower.child name, upper.child name with
      | none, node => node
      | some node, none => some node
      | some node, some other => some (node.merge other) := by
  induction lower generalizing upper with
  | nil => rfl
  | leaf other content rest ih =>
      unfold merge
      rw [child]
      by_cases same : name = other
      · subst same
        rw [if_pos rfl]
        cases isChild : upper.child name with
        | none => exact if_pos rfl
        | some node => simp [Node.merge]
      · rw [if_neg same]
        cases isChild : upper.child other with
        | none =>
            simp only [child, if_neg same]
            exact ih upper
        | some node =>
            simp only [child_into, if_neg same]
            rw [ih, child_remove_of_ne same]
  | branch other children rest _ ih =>
      unfold merge
      rw [child]
      by_cases same : name = other
      · subst same
        rw [if_pos rfl]
        cases isChild : upper.child name with
        | none => exact if_pos rfl
        | some node => cases node <;> exact if_pos rfl
      · rw [if_neg same]
        cases isChild : upper.child other with
        | none =>
            simp only [child, if_neg same]
            exact ih upper
        | some node =>
            have isRest : (rest.merge (upper.remove other)).child name =
                match rest.child name, upper.child name with
                | none, node => node
                | some node, none => some node
                | some node, some other => some (node.merge other) := by
              rw [ih, child_remove_of_ne same]
            cases node with
            | leaf content => exact (if_neg same).trans isRest
            | branch others => exact (if_neg same).trans isRest

/-- Only so many names have a child. -/
theorem exists_names (forest : Forest κ α) :
    ∃ names : List κ, ∀ name, name ∉ names → forest.child name = none := by
  induction forest with
  | nil => exact ⟨[], fun _ _ => rfl⟩
  | leaf first content rest ih | branch first children rest _ ih =>
      obtain ⟨names, others⟩ := ih
      refine ⟨first :: names, fun name notName => ?_⟩
      rw [List.mem_cons, not_or] at notName
      rw [child, if_neg notName.1, others name notName.2]

end Forest

namespace Node

@[simp] theorem find_nil (node : Node κ α) :
    node.find [] = match node with
      | .leaf content => some (some content)
      | .branch _ => some none := by
  cases node <;> rfl

/-- What is below a branch is below one of its children. -/
theorem find_branch_cons (children : Forest κ α) (name : κ) (below : List κ) :
    (Node.branch children).find (name :: below) =
      (children.child name).bind fun node => node.find below := by
  rw [find]
  cases children.child name <;> rfl

/-- A leaf blocks every path below it. -/
theorem blocks_leaf_cons (content : α) (name : κ) (below : List κ) :
    (Node.leaf content).Blocks (name :: below) :=
  ⟨[], content, List.nil_prefix, nofun, rfl⟩

/-- The empty path is never blocked. -/
theorem not_blocks_nil (node : Node κ α) : ¬ node.Blocks [] := by
  rintro ⟨above, content, isPrefix, notNil, -⟩
  exact notNil (List.prefix_nil.mp isPrefix)

/-- The way below a branch is blocked in the child. -/
theorem blocks_branch_cons {children : Forest κ α} {name : κ} {below : List κ} :
    (Node.branch children).Blocks (name :: below) ↔
      ∃ node, children.child name = some node ∧ node.Blocks below := by
  constructor
  · rintro ⟨above, content, isPrefix, different, isContent⟩
    cases above with
    | nil => cases isContent
    | cons first above =>
        obtain ⟨rfl, isInside⟩ := List.cons_prefix_cons.mp isPrefix
        rw [find_branch_cons] at isContent
        obtain ⟨node, isChild, isFound⟩ := Option.bind_eq_some_iff.mp isContent
        exact ⟨node, isChild, above, content, isInside,
          fun same => different (congrArg _ same), isFound⟩
  · rintro ⟨node, isChild, above, content, isPrefix, different, isContent⟩
    refine ⟨name :: above, content, List.cons_prefix_cons.mpr ⟨rfl, isPrefix⟩,
      fun same => different (List.cons.inj same).2, ?_⟩
    rw [find_branch_cons, isChild]
    exact isContent

/-- Nothing is found behind a content. -/
theorem find_eq_none_of_blocks {node : Node κ α} {path : List κ} (blocks : node.Blocks path) :
    node.find path = none := by
  induction path generalizing node with
  | nil => exact absurd blocks node.not_blocks_nil
  | cons name below ih =>
      cases node with
      | leaf content => rfl
      | branch children =>
          obtain ⟨child, isChild, childBlocks⟩ := blocks_branch_cons.mp blocks
          rw [find_branch_cons, isChild]
          exact ih childBlocks

/-- What a node adds to another at a path: what it has there, or nothing because a content
of it is in the way, or it leaves what the other has there. -/
inductive Adds (lower upper : Node κ α) (path : List κ) (found : Option (Option α)) : Prop where
  | has (kind : Option α) (isUpper : upper.find path = some kind) (isFound : found = some kind)
  | blocks (isBlocked : upper.Blocks path) (isFound : found = none)
  | leaves (isFree : ¬ upper.Blocks path) (isUpper : upper.find path = none)
      (isFound : found = lower.find path)

/-- Nothing changes where the other has nothing. -/
theorem adds_of_none {lower upper : Node κ α} {path : List κ} (isNone : lower.find path = none) :
    Adds lower upper path (upper.find path) := by
  by_cases isBlocked : upper.Blocks path
  · exact .blocks isBlocked (find_eq_none_of_blocks isBlocked)
  · cases isUpper : upper.find path with
    | some kind => exact .has kind isUpper rfl
    | none => exact .leaves isBlocked isUpper isNone.symm

/-- What is found after a node has been laid over another. -/
theorem find_merge (lower upper : Node κ α) (path : List κ) :
    Adds lower upper path ((lower.merge upper).find path) := by
  induction path generalizing lower upper with
  | nil =>
      cases upper with
      | leaf content => cases lower <;> exact .has (some content) rfl rfl
      | branch others => cases lower <;> exact .has none rfl rfl
  | cons name below ih =>
      cases upper with
      | leaf content => cases lower <;> exact .blocks (blocks_leaf_cons ..) rfl
      | branch others =>
          cases lower with
          | leaf content => exact adds_of_none rfl
          | branch children =>
              have isMerged := Forest.child_merge children others name
              cases isLower : children.child name with
              | none =>
                  rw [isLower] at isMerged
                  have isNone : (Node.branch children).find (name :: below) = none := by
                    rw [find_branch_cons, isLower]
                    rfl
                  have same : (Node.branch (children.merge others)).find (name :: below) =
                      (Node.branch others).find (name :: below) := by
                    rw [find_branch_cons, find_branch_cons, isMerged]
                  rw [merge, same]
                  exact adds_of_none isNone
              | some node =>
                  cases isUpper : others.child name with
                  | none =>
                      rw [isLower, isUpper] at isMerged
                      refine .leaves (fun isBlocked => ?_) ?_ ?_
                      · obtain ⟨other, isChild, -⟩ := blocks_branch_cons.mp isBlocked
                        cases isUpper.symm.trans isChild
                      · rw [find_branch_cons, isUpper]
                        rfl
                      · rw [merge, find_branch_cons, find_branch_cons, isMerged, isLower]
                  | some other =>
                      rw [isLower, isUpper] at isMerged
                      have isLowerFind : (Node.branch children).find (name :: below) =
                          node.find below := by
                        rw [find_branch_cons, isLower]
                        rfl
                      have isUpperFind : (Node.branch others).find (name :: below) =
                          other.find below := by
                        rw [find_branch_cons, isUpper]
                        rfl
                      have isMergedFind : (Node.branch (children.merge others)).find
                          (name :: below) = (node.merge other).find below := by
                        rw [find_branch_cons, isMerged]
                        rfl
                      rw [merge, isMergedFind]
                      cases ih node other with
                      | has kind isKind isFound =>
                          exact .has kind (isUpperFind.trans isKind) isFound
                      | blocks isBlocked isFound =>
                          exact .blocks (blocks_branch_cons.mpr ⟨other, isUpper, isBlocked⟩) isFound
                      | leaves isFree isNone isFound =>
                          refine .leaves (fun isBlocked => ?_) (isUpperFind.trans isNone)
                            (isFound.trans isLowerFind.symm)
                          obtain ⟨_, isChild, inside⟩ := blocks_branch_cons.mp isBlocked
                          obtain rfl := Option.some.inj (isUpper.symm.trans isChild)
                          exact isFree inside

/-- What the upper node has is found. -/
theorem find_merge_of_some {lower upper : Node κ α} {path : List κ} {kind : Option α}
    (isUpper : upper.find path = some kind) : (lower.merge upper).find path = some kind := by
  cases find_merge lower upper path with
  | has other isKind isFound => rw [isFound, ← isKind, isUpper]
  | blocks isBlocked => cases isUpper.symm.trans (find_eq_none_of_blocks isBlocked)
  | leaves _ isNone => cases isUpper.symm.trans isNone

/-- What it says nothing of is left. -/
theorem find_merge_of_free {lower upper : Node κ α} {path : List κ}
    (isNone : upper.find path = none) (isFree : ¬ upper.Blocks path) :
    (lower.merge upper).find path = lower.find path := by
  cases find_merge lower upper path with
  | has kind isKind => cases isNone.symm.trans isKind
  | blocks isBlocked => exact absurd isBlocked isFree
  | leaves _ _ isFound => exact isFound

/-- Nothing is left where it is in the way. -/
theorem find_merge_of_blocks {lower upper : Node κ α} {path : List κ}
    (isBlocked : upper.Blocks path) : (lower.merge upper).find path = none := by
  cases find_merge lower upper path with
  | has kind isKind => cases isKind.symm.trans (find_eq_none_of_blocks isBlocked)
  | blocks _ isFound => exact isFound
  | leaves isFree => exact absurd isBlocked isFree

/-- A content that is laid over a node hides what is below it. -/
theorem find_merge_leaf {lower upper : Node κ α} {path : List κ} {content : α}
    (isContent : upper.find path = some (some content)) (below : List κ) :
    (lower.merge upper).find (path ++ below) = (Node.leaf content : Node κ α).find below := by
  cases below with
  | nil =>
      rw [List.append_nil]
      exact find_merge_of_some isContent
  | cons name below =>
      exact find_merge_of_blocks
        ⟨path, content, List.prefix_append _ _, by simp, isContent⟩

/-- A content comes from either node. -/
theorem find_of_merge {lower upper : Node κ α} {path : List κ} {kind : Option α}
    (isFound : (lower.merge upper).find path = some kind) :
    upper.find path = some kind ∨ lower.find path = some kind := by
  cases find_merge lower upper path with
  | has other isKind isSame => exact .inl (isKind.trans (isSame.symm.trans isFound))
  | blocks _ isNone => cases isNone.symm.trans isFound
  | leaves _ _ isSame => exact .inr (isSame.symm.trans isFound)

/-- At the end of its branches is the node. -/
theorem find_nest_append (path below : List κ) (node : Node κ α) :
    (nest path node).find (path ++ below) = node.find below := by
  induction path with
  | nil => rfl
  | cons name rest ih =>
      rw [nest, List.cons_append, find_branch_cons, Forest.child_into, if_pos rfl]
      exact ih

/-- On the way to it is a branch. -/
theorem find_nest_above {path above : List κ} (node : Node κ α) (isPrefix : above <+: path)
    (different : above ≠ path) : (nest path node).find above = some none := by
  induction path generalizing above with
  | nil => exact absurd (List.prefix_nil.mp isPrefix) different
  | cons name rest ih =>
      cases above with
      | nil => rfl
      | cons first above =>
          obtain ⟨rfl, inside⟩ := List.cons_prefix_cons.mp isPrefix
          rw [nest, find_branch_cons, Forest.child_into, if_pos rfl]
          exact ih inside fun same => different (congrArg _ same)

/-- Elsewhere is nothing. -/
theorem find_nest_eq_none {path other : List κ} (node : Node κ α) (notAbove : ¬ other <+: path)
    (notBelow : ¬ path <+: other) : (nest path node).find other = none := by
  induction path generalizing other with
  | nil => exact absurd List.nil_prefix notBelow
  | cons name rest ih =>
      cases other with
      | nil => exact absurd List.nil_prefix notAbove
      | cons first other =>
          rw [nest, find_branch_cons, Forest.child_into]
          by_cases same : first = name
          · subst same
            rw [if_pos rfl]
            exact ih (fun isPrefix => notAbove (List.cons_prefix_cons.mpr ⟨rfl, isPrefix⟩))
              fun isPrefix => notBelow (List.cons_prefix_cons.mpr ⟨rfl, isPrefix⟩)
          · rw [if_neg same]
            rfl

/-- A branch does not block the way to what is elsewhere. -/
theorem prefix_of_find_nest {path other : List κ} {node : Node κ α} {content : α}
    (isContent : (nest path node).find other = some (some content)) : path <+: other := by
  by_contra notBelow
  by_cases isAbove : other <+: path
  · have different : other ≠ path := by
      rintro rfl
      exact notBelow List.prefix_rfl
    cases (find_nest_above node isAbove different).symm.trans isContent
  · cases (find_nest_eq_none node isAbove notBelow).symm.trans isContent

/-- Nor does it block the way to what is right below it. -/
theorem not_blocks_nest_branch {path : List κ} {children : Forest κ α} {name : κ} :
    ¬ (nest path (.branch children)).Blocks (path ++ [name]) := by
  rintro ⟨above, content, isPrefix, different, isContent⟩
  have isBelow := prefix_of_find_nest isContent
  rcases List.prefix_concat_iff.mp isPrefix with isWhole | isAbove
  · exact different isWhole
  · obtain rfl := isBelow.eq_of_length_le isAbove.length_le
    have isNode := find_nest_append path [] (Node.branch children)
    rw [List.append_nil] at isNode
    cases isNode.symm.trans isContent

end Node

/-- Neither path leads to the other. -/
def Apart (path other : List κ) : Prop := ¬ path <+: other ∧ ¬ other <+: path

omit [DecidableEq κ] in
/-- What is below one of them is not on the way of the other either. -/
theorem Apart.append {path other : List κ} (apart : Apart path other) (below : List κ) :
    Apart (path ++ below) other := by
  refine ⟨fun isPrefix => apart.1 ((List.prefix_append path below).trans isPrefix), ?_⟩
  intro isPrefix
  rcases List.prefix_or_prefix_of_prefix isPrefix (List.prefix_append path below) with
    above | inside
  · exact apart.2 above
  · exact apart.1 inside

namespace Node

variable {path other : List κ} {first second value : Node κ α}

/-- A setting elsewhere does not block a path. -/
theorem not_blocks_nest (apart : Apart path other) : ¬ (nest other value).Blocks path := by
  rintro ⟨above, content, isPrefix, -, isContent⟩
  exact apart.2 ((prefix_of_find_nest isContent).trans isPrefix)

/-- Nor does it say anything of it. -/
theorem find_merge_nest_of_apart (apart : Apart path other) :
    (first.merge (nest other value)).find path = first.find path :=
  find_merge_of_free (find_nest_eq_none value apart.1 apart.2) (not_blocks_nest apart)

/-- What neither blocks, their merge does not. -/
theorem not_blocks_merge (notFirst : ¬ first.Blocks path) (notSecond : ¬ second.Blocks path) :
    ¬ (first.merge second).Blocks path := by
  rintro ⟨above, content, isPrefix, different, isContent⟩
  rcases find_of_merge isContent with isSecond | isFirst
  · exact notSecond ⟨above, content, isPrefix, different, isSecond⟩
  · exact notFirst ⟨above, content, isPrefix, different, isFirst⟩

/-- Beside a path two nodes have the same, and neither blocks the path. -/
structure AgreeBeside (path : List κ) (first second : Node κ α) : Prop where
  same : ∀ other, Apart path other → first.find other = second.find other
  isOpen : ¬ first.Blocks path ∧ ¬ second.Blocks path

/-- A setting changes only what is not beside it. -/
theorem agreeBeside_nest (isOpen : ¬ first.Blocks path) (value : Node κ α) :
    AgreeBeside path (first.merge (nest path value)) first := by
  refine ⟨fun other apart => find_merge_nest_of_apart ⟨apart.2, apart.1⟩, ?_, isOpen⟩
  refine not_blocks_merge isOpen ?_
  rintro ⟨above, content, isPrefix, different, isContent⟩
  cases (find_nest_above value isPrefix different).symm.trans isContent

/-- A later setting elsewhere leaves the agreement. -/
theorem AgreeBeside.merge_nest (agree : AgreeBeside path first second) (apart : Apart path other)
    (value : Node κ α) :
    AgreeBeside path (first.merge (nest other value)) (second.merge (nest other value)) := by
  refine ⟨fun beside isBeside => ?_, not_blocks_merge agree.isOpen.1 (not_blocks_nest apart),
    not_blocks_merge agree.isOpen.2 (not_blocks_nest apart)⟩
  have isSame := agree.same beside isBeside
  cases find_merge first (nest other value) beside with
  | has kind isKind isFound => rw [isFound, find_merge_of_some isKind]
  | blocks isBlocked isFound => rw [isFound, find_merge_of_blocks isBlocked]
  | leaves isFree isNone isFound => rw [isFound, find_merge_of_free isNone isFree, isSame]

/-- Laid over anything, both leave the same beside the path. -/
theorem AgreeBeside.over (agree : AgreeBeside path first second) (lower : Node κ α)
    (apart : Apart path other) :
    (lower.merge first).find other = (lower.merge second).find other := by
  have isSame := agree.same other apart
  -- What blocks the other path stands beside the path itself.
  have blocks_iff : first.Blocks other ↔ second.Blocks other := by
    refine exists₂_congr fun above content => and_congr_right fun isPrefix =>
      and_congr_right fun _ => ?_
    by_cases isAbove : above <+: path
    · have isProper : above ≠ path := by
        rintro rfl
        exact apart.1 isPrefix
      exact iff_of_false
        (fun isContent => agree.isOpen.1 ⟨above, content, isAbove, isProper, isContent⟩)
        fun isContent => agree.isOpen.2 ⟨above, content, isAbove, isProper, isContent⟩
    · have isApart : Apart path above :=
        ⟨fun isBelow => apart.1 (isBelow.trans isPrefix), isAbove⟩
      rw [agree.same above isApart]
  cases find_merge lower first other with
  | has kind isKind isFound =>
      rw [isFound, find_merge_of_some (isSame.symm.trans isKind)]
  | blocks isBlocked isFound =>
      rw [isFound, find_merge_of_blocks (blocks_iff.mp isBlocked)]
  | leaves isFree isNone isFound =>
      rw [isFound, find_merge_of_free (isSame.symm.trans isNone) (mt blocks_iff.mpr isFree)]

end Node

end Data
