import AltairRs.Unix.FileSystem

/-!
# Paths as text

Separators divide a text into pieces; the pieces are the components of its path,
but for empty ones and a `.` behind another. The text of a path of file names is
that path again, also with a separator at its end.
-/

namespace Unix

/-- The text of one component. -/
def Component.text : Component → String
  | .drive name => name
  | .rootDir => ""
  | .curDir => "."
  | .parentDir => ".."
  | .normal name => name

/-- The text of a path that is not a root alone. -/
def toText (path : Path) : String := "/".intercalate (path.map Component.text)

/-- The component a piece stands for. -/
def component (piece : List Char) : Option Component :=
  if piece = [] ∨ piece = ['.'] then none
  else if piece = ['.', '.'] then some .parentDir
  else some (.normal (String.ofList piece))

/-- The first piece may also stand for a root, or for the directory itself. -/
def ofPieces : List (List Char) → Path
  | [] => []
  | first :: rest =>
      if first = [] ∧ rest ≠ [] then .rootDir :: rest.filterMap component
      else if first = ['.'] then .curDir :: rest.filterMap component
      else (first :: rest).filterMap component

/-- `Path::components` of a text. -/
def ofText (text : String) : Path := ofPieces (text.toList.splitOn '/')

/-- A name a file can have. -/
structure IsFileName (name : String) : Prop where
  nonempty : name ≠ ""
  notCurrent : name ≠ "."
  notParent : name ≠ ".."
  noSeparator : '/' ∉ name.toList
  noNul : Char.ofNat 0 ∉ name.toList

instance (name : String) : Decidable (IsFileName name) :=
  decidable_of_iff (name ≠ "" ∧ name ≠ "." ∧ name ≠ ".." ∧ '/' ∉ name.toList ∧
      Char.ofNat 0 ∉ name.toList)
    ⟨fun ⟨nonempty, notCurrent, notParent, noSeparator, noNul⟩ =>
        ⟨nonempty, notCurrent, notParent, noSeparator, noNul⟩,
      fun ⟨nonempty, notCurrent, notParent, noSeparator, noNul⟩ =>
        ⟨nonempty, notCurrent, notParent, noSeparator, noNul⟩⟩

/-- The path of the names. -/
abbrev named (names : List String) : Path := names.map .normal

/-- A file name is one component. -/
theorem IsFileName.component_toList {name : String} (isName : IsFileName name) :
    component name.toList = some (.normal name) := by
  have different : ∀ other : String, name ≠ other → name.toList ≠ other.toList :=
    fun _ other same => other (String.toList_inj.mp same)
  have notEmpty : name.toList ≠ [] := different "" isName.nonempty
  have notDot : name.toList ≠ ['.'] := different "." isName.notCurrent
  have notDots : name.toList ≠ ['.', '.'] := different ".." isName.notParent
  rw [component, if_neg (not_or_intro notEmpty notDot), if_neg notDots, String.ofList_toList]

/-- File names are components each. -/
theorem filterMap_component {names : List String} (areNames : ∀ name ∈ names, IsFileName name) :
    (names.map String.toList).filterMap component = named names := by
  induction names with
  | nil => rfl
  | cons first rest ih =>
      obtain ⟨isName, others⟩ := List.forall_mem_cons.mp areNames
      rw [List.map_cons, List.filterMap_cons_some isName.component_toList, ih others]
      rfl

/-- The pieces of a path of file names, with or without a separator at the end. -/
theorem ofPieces_names {names : List String} (areNames : ∀ name ∈ names, IsFileName name)
    (isSome : names ≠ []) {pieces : List (List Char)} (ending : pieces.filterMap component = []) :
    ofPieces (names.map String.toList ++ pieces) = named names := by
  cases names with
  | nil => exact absurd rfl isSome
  | cons first rest =>
      have isName := (List.forall_mem_cons.mp areNames).1
      have notEmpty : first.toList ≠ [] := fun same =>
        isName.nonempty (String.toList_inj.mp same)
      have notDot : first.toList ≠ ['.'] := fun same =>
        isName.notCurrent (String.toList_inj.mp same)
      have allPieces : ((first :: rest).map String.toList ++ pieces).filterMap component =
          named (first :: rest) := by
        rw [List.filterMap_append, filterMap_component areNames, ending, List.append_nil]
      rw [List.map_cons, List.cons_append, ofPieces, if_neg fun isRoot => notEmpty isRoot.1,
        if_neg notDot]
      exact allPieces

/-- The text of names has slashes between them. -/
theorem toText_named (names : List String) : toText (named names) = "/".intercalate names := by
  have texts : (named names).map Component.text = names := by
    simp [named, Function.comp_def, Component.text]
  rw [toText, texts]

/-- The text of a path of file names is the text of that path. -/
theorem ofText_toText {names : List String} (areNames : ∀ name ∈ names, IsFileName name)
    (isSome : names ≠ []) : ofText (toText (named names)) = named names := by
  have noSeparator : ∀ piece ∈ names.map String.toList, '/' ∉ piece := by
    intro piece member
    obtain ⟨name, isName, rfl⟩ := List.mem_map.mp member
    exact (areNames name isName).noSeparator
  have split : (toText (named names)).toList.splitOn '/' = names.map String.toList := by
    rw [toText_named, String.toList_intercalate]
    exact List.splitOn_intercalate '/' noSeparator (by simpa using isSome)
  have pieces := ofPieces_names areNames isSome (List.filterMap_nil (f := component))
  rwa [List.append_nil, ← split] at pieces

/-- A separator at its end changes nothing. -/
theorem ofText_toText_slash {names : List String} (areNames : ∀ name ∈ names, IsFileName name)
    (isSome : names ≠ []) : ofText (toText (named names) ++ "/") = named names := by
  have noSeparator : ∀ piece ∈ names.map String.toList ++ [[]], '/' ∉ piece := by
    intro piece member
    rcases List.mem_append.mp member with isPiece | isLast
    · obtain ⟨name, isName, rfl⟩ := List.mem_map.mp isPiece
      exact (areNames name isName).noSeparator
    · rw [List.mem_singleton.mp isLast]
      exact List.not_mem_nil
  have isText : toText (named names) ++ "/" = "/".intercalate (names ++ [""]) := by
    rw [toText_named, String.intercalate_append_of_ne_nil isSome (List.cons_ne_nil _ _),
      String.intercalate_singleton, String.append_empty]
  have split : (toText (named names) ++ "/").toList.splitOn '/' =
      names.map String.toList ++ [[]] := by
    rw [isText, String.toList_intercalate, List.map_append]
    exact List.splitOn_intercalate '/' noSeparator (by simp)
  rw [ofText, split]
  exact ofPieces_names areNames isSome rfl

/-- The text of a path of names has no other characters than theirs. -/
theorem mem_toText {names : List String} {ch : Char}
    (member : ch ∈ (toText (named names)).toList) :
    ch = '/' ∨ ∃ name ∈ names, ch ∈ name.toList := by
  rw [toText_named, String.toList_intercalate] at member
  induction names with
  | nil => cases member
  | cons first rest ih =>
      cases rest with
      | nil =>
          rw [List.map_singleton, List.intercalate_singleton] at member
          exact .inr ⟨first, List.mem_singleton_self first, member⟩
      | cons second rest =>
          rw [List.map_cons, List.map_cons, List.intercalate_cons_cons, ← List.map_cons,
            List.mem_append, List.mem_append] at member
          rcases member with (inFirst | isSlash) | later
          · exact .inr ⟨first, List.mem_cons_self, inFirst⟩
          · exact .inl (List.mem_singleton.mp isSlash)
          · exact (ih later).imp_right fun ⟨name, isName, inName⟩ =>
              ⟨name, List.mem_cons_of_mem _ isName, inName⟩

/-- It ends as the last name does. -/
theorem getLast?_toText (above : List String) {name : String} (isSome : name ≠ "") :
    (toText (named (above ++ [name]))).toList.getLast? = name.toList.getLast? := by
  have notEmpty : name.toList ≠ [] := fun same => isSome (String.toList_inj.mp same)
  rw [toText_named]
  by_cases isFirst : above = []
  · rw [isFirst, List.nil_append, String.intercalate_singleton]
  · rw [String.intercalate_append_of_ne_nil isFirst (List.cons_ne_nil _ _),
      String.intercalate_singleton, String.toList_append, List.getLast?_append_of_ne_nil _ notEmpty]

end Unix
