import Mathlib.Data.List.Nodup

/-!
# Forests of named nodes

A forest is the children of one place in the order they are listed: leaves with
their content, and branches with children of their own. `entries` is the listing
in which a branch stands before what is below it. In such a listing every entry
is new and its place is already there, so that a loop over it can build the
forest again, and looking a path up in it finds what the forest has there.
-/

namespace Data

universe u v

/-- The listed children of one place. -/
inductive Forest (κ : Type u) (α : Type v) where
  | nil
  | leaf (name : κ) (content : α) (rest : Forest κ α)
  | branch (name : κ) (children rest : Forest κ α)

namespace Forest

variable {κ : Type u} {α : Type v}

/-- The names at this place. -/
def names : Forest κ α → List κ
  | .nil => []
  | .leaf name _ rest => name :: rest.names
  | .branch name _ rest => name :: rest.names

/-- The names at every place. -/
def allNames : Forest κ α → List κ
  | .nil => []
  | .leaf name _ rest => name :: rest.allNames
  | .branch name children rest => name :: (children.allNames ++ rest.allNames)

/-- The contents of the leaves, in order. -/
def contents : Forest κ α → List α
  | .nil => []
  | .leaf _ content rest => content :: rest.contents
  | .branch _ children rest => children.contents ++ rest.contents

/-- Siblings have different names. -/
def Distinct : Forest κ α → Prop
  | .nil => True
  | .leaf name _ rest => name ∉ rest.names ∧ rest.Distinct
  | .branch name children rest => name ∉ rest.names ∧ children.Distinct ∧ rest.Distinct

/-- What stands at a path: the content of a leaf, or `none` for a branch. -/
def find [DecidableEq κ] : Forest κ α → List κ → Option (Option α)
  | .nil, _ => none
  | .leaf name content rest, path =>
      if path = [name] then some (some content) else rest.find path
  | .branch name children rest, path =>
      if path = [name] then some none
      else if path.head? = some name then children.find path.tail
      else rest.find path

/-- All paths below a place with what stands there, a branch first. -/
def entries (above : List κ) : Forest κ α → List (List κ × Option α)
  | .nil => []
  | .leaf name content rest => (above ++ [name], some content) :: rest.entries above
  | .branch name children rest =>
      (above ++ [name], none) :: (children.entries (above ++ [name]) ++ rest.entries above)

/-- An entry is one of the named children, or below one. -/
theorem exists_name_of_mem_entries {forest : Forest κ α} {above path : List κ} {kind : Option α}
    (member : (path, kind) ∈ forest.entries above) :
    ∃ name ∈ forest.names, above ++ [name] <+: path := by
  induction forest generalizing above with
  | nil => cases member
  | leaf name content rest ih =>
      rcases List.mem_cons.mp member with isFirst | later
      · cases isFirst
        exact ⟨name, List.mem_cons_self, List.prefix_rfl⟩
      · obtain ⟨other, isName, below⟩ := ih later
        exact ⟨other, List.mem_cons_of_mem _ isName, below⟩
  | branch name children rest ihChildren ihRest =>
      rcases List.mem_cons.mp member with isFirst | later
      · cases isFirst
        exact ⟨name, List.mem_cons_self, List.prefix_rfl⟩
      rcases List.mem_append.mp later with inside | beside
      · obtain ⟨other, _, below⟩ := ihChildren inside
        exact ⟨name, List.mem_cons_self, (List.prefix_append _ _).trans below⟩
      · obtain ⟨other, isName, below⟩ := ihRest beside
        exact ⟨other, List.mem_cons_of_mem _ isName, below⟩

/-- The names of an entry are names of the forest. -/
theorem mem_allNames_of_mem_entries {forest : Forest κ α} {above path : List κ} {kind : Option α}
    (member : (path, kind) ∈ forest.entries above) :
    ∀ name ∈ path, name ∈ above ∨ name ∈ forest.allNames := by
  induction forest generalizing above with
  | nil => cases member
  | leaf name content rest ih =>
      intro other isName
      rcases List.mem_cons.mp member with isFirst | later
      · cases isFirst
        exact (List.mem_append.mp isName).imp_right fun isLast =>
          List.mem_cons.mpr (.inl (List.mem_singleton.mp isLast))
      · exact (ih later other isName).imp_right (List.mem_cons_of_mem _)
  | branch name children rest ihChildren ihRest =>
      intro other isName
      have isFirstName : other ∈ above ++ [name] →
          other ∈ above ∨ other ∈ (branch name children rest).allNames := fun inPath =>
        (List.mem_append.mp inPath).imp_right fun isLast =>
          List.mem_cons.mpr (.inl (List.mem_singleton.mp isLast))
      rcases List.mem_cons.mp member with isFirst | later
      · cases isFirst
        exact isFirstName isName
      rcases List.mem_append.mp later with inside | beside
      · rcases ihChildren inside other isName with inPath | inChildren
        · exact isFirstName inPath
        · exact .inr (List.mem_cons_of_mem _ (List.mem_append_left _ inChildren))
      · exact (ihRest beside other isName).imp_right fun inRest =>
          List.mem_cons_of_mem _ (List.mem_append_right _ inRest)

/-- The listing has the contents in order. -/
theorem filterMap_entries (forest : Forest κ α) (above : List κ) :
    (forest.entries above).filterMap Prod.snd = forest.contents := by
  induction forest generalizing above with
  | nil => rfl
  | leaf name content rest ih => simp [entries, contents, ih]
  | branch name children rest ihChildren ihRest =>
      simp [entries, contents, ihChildren, ihRest]

/-- No entry is elsewhere. -/
theorem lookup_entries_of_not_below [DecidableEq κ] {forest : Forest κ α} {above path : List κ}
    (notBelow : ∀ name ∈ forest.names, ¬ above ++ [name] <+: path) :
    (forest.entries above).lookup path = none := by
  refine List.lookup_eq_none_iff.mpr fun entry member => bne_iff_ne.mpr ?_
  rintro rfl
  obtain ⟨name, isName, below⟩ := exists_name_of_mem_entries member
  exact notBelow name isName below

/-- Looking a path up in the listing finds what stands there. -/
theorem lookup_entries [DecidableEq κ] {forest : Forest κ α} (distinct : forest.Distinct)
    (above path : List κ) : (forest.entries above).lookup (above ++ path) = forest.find path := by
  induction forest generalizing above path with
  | nil => rfl
  | leaf name content rest ih =>
      unfold entries find
      rw [List.lookup_cons, ih distinct.2]
      by_cases isHere : path = [name]
      · simp [isHere]
      · have elsewhere : (above ++ path == above ++ [name]) = false := by simpa using isHere
        rw [elsewhere, if_neg isHere]
  | branch name children rest ihChildren ihRest =>
      obtain ⟨notSibling, distinctChildren, distinctRest⟩ := distinct
      unfold entries find
      rw [List.lookup_cons, List.lookup_append, ihRest distinctRest]
      by_cases isHere : path = [name]
      · simp [isHere]
      have elsewhere : (above ++ path == above ++ [name]) = false := by simpa using isHere
      rw [elsewhere, if_neg isHere]
      by_cases isInside : path.head? = some name
      · obtain ⟨below, rfl⟩ := List.head?_eq_some_iff.mp isInside
        have notBeside : rest.find (name :: below) = none := by
          rw [← ihRest distinctRest above]
          refine lookup_entries_of_not_below fun other isName isPrefix => ?_
          rw [List.prefix_append_right_inj, List.cons_prefix_cons] at isPrefix
          exact notSibling (isPrefix.1 ▸ isName)
        rw [if_pos isInside, List.tail_cons, ← ihChildren distinctChildren (above ++ [name]),
          List.append_assoc, List.singleton_append, notBeside, Option.or_none]
      · have notInside : (children.entries (above ++ [name])).lookup (above ++ path) = none := by
          refine lookup_entries_of_not_below fun other _ isPrefix => isInside ?_
          rw [List.append_assoc, List.prefix_append_right_inj] at isPrefix
          obtain ⟨below, rfl⟩ := isPrefix
          rfl
        rw [if_neg isInside, notInside, Option.none_or]

/-- A listing to build from: every entry is new, and in a branch that is there. -/
inductive Rooted : List (List κ) → List (List κ) → List (List κ × Option α) → Prop where
  | nil {branches taken} : Rooted branches taken []
  | leaf {branches taken above name content rest} (inside : above ∈ branches)
      (fresh : above ++ [name] ∉ taken)
      (next : Rooted branches ((above ++ [name]) :: taken) rest) :
      Rooted branches taken ((above ++ [name], some content) :: rest)
  | branch {branches taken above name rest} (inside : above ∈ branches)
      (fresh : above ++ [name] ∉ taken)
      (next : Rooted ((above ++ [name]) :: branches) ((above ++ [name]) :: taken) rest) :
      Rooted branches taken ((above ++ [name], none) :: rest)

/-- The first entry is new, and a branch can be built in after it. -/
theorem Rooted.cons_inv {branches taken : List (List κ)} {path : List κ} {kind : Option α}
    {rest : List (List κ × Option α)} (rooted : Rooted branches taken ((path, kind) :: rest)) :
    ∃ above name, path = above ++ [name] ∧ above ∈ branches ∧ path ∉ taken ∧
      Rooted (if kind.isNone then path :: branches else branches) (path :: taken) rest := by
  cases rooted with
  | leaf inside fresh next => exact ⟨_, _, rfl, inside, fresh, next⟩
  | branch inside fresh next => exact ⟨_, _, rfl, inside, fresh, next⟩

/-- No path occurs twice, and none that was taken. -/
theorem Rooted.nodup {branches taken : List (List κ)} {entries : List (List κ × Option α)}
    (rooted : Rooted branches taken entries) :
    (entries.map Prod.fst).Nodup ∧ ∀ path ∈ entries.map Prod.fst, path ∉ taken := by
  induction rooted with
  | nil => exact ⟨.nil, nofun⟩
  | leaf _ fresh _ ih | branch _ fresh _ ih =>
      obtain ⟨distinct, untaken⟩ := ih
      refine ⟨List.nodup_cons.mpr ⟨fun again => untaken _ again List.mem_cons_self, distinct⟩, ?_⟩
      exact List.forall_mem_cons.mpr ⟨fresh, fun path later isTaken =>
        untaken path later (List.mem_cons_of_mem _ isTaken)⟩

/-- A path leads through one child. -/
theorem eq_of_concat_prefix {above path : List κ} {first second : κ}
    (isFirst : above ++ [first] <+: path) (isSecond : above ++ [second] <+: path) :
    first = second := by
  have same : above ++ [first] = above ++ [second] :=
    (List.prefix_of_prefix_length_le isFirst isSecond (by simp)).eq_of_length (by simp)
  simpa using same

/-- The listing of a forest can be built from, and then whatever can after it. -/
theorem rooted_entries_append {forest : Forest κ α} (distinct : forest.Distinct)
    {above : List κ} {branches taken : List (List κ)} {later : List (List κ × Option α)}
    (inside : above ∈ branches)
    (fresh : ∀ name ∈ forest.names, ∀ path ∈ taken, ¬ above ++ [name] <+: path)
    (next : ∀ branches' taken', branches ⊆ branches' →
      (∀ path ∈ taken', path ∈ taken ∨ ∃ name ∈ forest.names, above ++ [name] <+: path) →
      Rooted branches' taken' later) :
    Rooted branches taken (forest.entries above ++ later) := by
  induction forest generalizing above branches taken later with
  | nil => exact next branches taken (List.Subset.refl _) fun path isTaken => .inl isTaken
  | leaf name content rest ih =>
      refine .leaf inside
        (fun isTaken => fresh name List.mem_cons_self _ isTaken List.prefix_rfl) ?_
      refine ih distinct.2 inside ?_ ?_
      · intro other isName
        refine List.forall_mem_cons.mpr ⟨fun isPrefix => ?_,
          fresh other (List.mem_cons_of_mem _ isName)⟩
        obtain rfl := eq_of_concat_prefix isPrefix List.prefix_rfl
        exact distinct.1 isName
      · intro branches' taken' more onlyNew
        refine next branches' taken' more fun path isTaken => ?_
        rcases onlyNew path isTaken with isOld | ⟨other, isName, below⟩
        · rcases List.mem_cons.mp isOld with rfl | before
          · exact .inr ⟨name, List.mem_cons_self, List.prefix_rfl⟩
          · exact .inl before
        · exact .inr ⟨other, List.mem_cons_of_mem _ isName, below⟩
  | branch name children rest ihChildren ihRest =>
      obtain ⟨notSibling, distinctChildren, distinctRest⟩ := distinct
      rw [entries, List.cons_append, List.append_assoc]
      refine .branch inside
        (fun isTaken => fresh name List.mem_cons_self _ isTaken List.prefix_rfl) ?_
      refine ihChildren distinctChildren List.mem_cons_self ?_ ?_
      · intro other _
        refine List.forall_mem_cons.mpr ⟨fun isPrefix => ?_, fun path isTaken isPrefix => ?_⟩
        · have longer := isPrefix.length_le
          simp only [List.length_append, List.length_singleton] at longer
          omega
        · exact fresh name List.mem_cons_self path isTaken
            ((List.prefix_append _ _).trans isPrefix)
      · intro branches' taken' more onlyBelow
        have isBelow : ∀ path ∈ taken', path ∈ taken ∨ above ++ [name] <+: path := by
          intro path isTaken
          rcases onlyBelow path isTaken with isOld | ⟨other, _, below⟩
          · rcases List.mem_cons.mp isOld with rfl | before
            · exact .inr List.prefix_rfl
            · exact .inl before
          · exact .inr ((List.prefix_append _ _).trans below)
        refine ihRest distinctRest (more (List.mem_cons_of_mem _ inside)) ?_ ?_
        · intro other isName path isTaken isPrefix
          rcases isBelow path isTaken with before | below
          · exact fresh other (List.mem_cons_of_mem _ isName) path before isPrefix
          · obtain rfl := eq_of_concat_prefix below isPrefix
            exact notSibling isName
        · intro branches'' taken'' evenMore onlyNew
          refine next branches'' taken''
            (fun path isBranch => evenMore (more (List.mem_cons_of_mem _ isBranch))) ?_
          intro path isTaken
          rcases onlyNew path isTaken with isOld | ⟨other, isName, below⟩
          · exact (isBelow path isOld).imp_right fun below => ⟨name, List.mem_cons_self, below⟩
          · exact .inr ⟨other, List.mem_cons_of_mem _ isName, below⟩

/-- The listing of a forest can be built from its root. -/
theorem rooted_entries {forest : Forest κ α} (distinct : forest.Distinct) :
    Rooted [[]] [] (forest.entries []) := by
  have rooted : Rooted [[]] [] (forest.entries [] ++ []) :=
    rooted_entries_append distinct List.mem_cons_self (fun _ _ _ => nofun) fun _ _ _ _ => .nil
  rwa [List.append_nil] at rooted

end Forest

end Data
