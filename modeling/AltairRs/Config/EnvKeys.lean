import Mathlib.Data.Set.Finite.Basic
import AltairRs.Config.Loader

/-!
# Keys from the environment

A variable sets the path whose keys are the words of its name, since a `_` in a key is as
good as one between two keys. So a path can be set from the environment exactly if every key
of it is one word, the prefix is seen at all, and the value is no dictionary: what a file has
beside the keys of a dictionary stays.
-/

namespace AltairRs.Config

open Data

variable {Scalar : Type}

/-- A letter of a key in snake case. -/
def IsSnakeLetter (letter : Char) : Prop := letter.isLower ∨ letter.isDigit ∨ letter = '_'

/-- A key of words in lower case, with a `_` between any two. -/
def IsSnakeCase (key : Text) : Prop :=
  [] ∉ key.splitOn '_' ∧ ∀ letter ∈ key, IsSnakeLetter letter

/-- The name that is to set a path: the keys joined by `_`, in upper case. -/
def variableName (envPrefix : Text) (path : List Text) : Text :=
  envPrefix ++ ['_'] ++ (['_'].intercalate path).map Char.toUpper

/-- The words of all keys of a path. -/
def wordsOf (path : List Text) : List Text := path.flatMap fun key => key.splitOn '_'

/-- One configuration holds exactly a value at a path, and elsewhere is like another. -/
structure Sets (config plain : Dict Scalar) (path : List Text) (value : Value Scalar) : Prop where
  holds : ∀ below, (Node.branch config).find (path ++ below) = value.find below
  others : ∀ other, Apart path other →
    (Node.branch config).find other = (Node.branch plain).find other

/-- No variable sets a path that leads to this one or is below it. -/
def IsUnset (envPrefix : Text) (vars : List (Text × Text)) (path : List Text) : Prop :=
  ∀ entry ∈ vars, ∀ other, (envOf envPrefix).keys entry.1 = some other → Apart path other

/-- To split a joined path is to split its keys. -/
theorem splitOn_intercalate_eq (path : List Text) (isSome : path ≠ []) :
    (['_'].intercalate path).splitOn '_' = wordsOf path := by
  induction path with
  | nil => exact absurd rfl isSome
  | cons key rest ih =>
      cases rest with
      | nil => simp [wordsOf, List.intercalate_singleton]
      | cons next rest =>
          rw [List.intercalate_cons_cons, List.append_assoc, List.singleton_append,
            List.splitOn_append_cons_self, ih nofun]
          rfl

/-- A path of words is its own words. -/
theorem wordsOf_eq_self {path : List Text} (areWords : ∀ key ∈ path, '_' ∉ key) :
    wordsOf path = path := by
  induction path with
  | nil => rfl
  | cons key rest ih =>
      obtain ⟨isWord, others⟩ := List.forall_mem_cons.mp areWords
      rw [wordsOf, List.flatMap_cons, List.splitOn_eq_singleton isWord]
      exact congrArg (key :: ·) (ih others)

/-- A word has no underscore. -/
theorem notMem_of_mem_wordsOf {path : List Text} {word : Text} (isWord : word ∈ wordsOf path) :
    '_' ∉ word := by
  obtain ⟨_, _, isPart⟩ := List.mem_flatMap.mp isWord
  exact fun inside => (mem_of_mem_splitOn isPart inside).2 rfl

/-- Every key has a word. -/
theorem length_le_wordsOf (path : List Text) : path.length ≤ (wordsOf path).length := by
  induction path with
  | nil => exact Nat.le_refl _
  | cons key rest ih =>
      have isSplit : 0 < (key.splitOn '_').length :=
        List.length_pos_of_ne_nil (List.splitOn_ne_nil _ key)
      rw [wordsOf, List.flatMap_cons, List.length_append, List.length_cons]
      change rest.length ≤ (rest.flatMap fun key => key.splitOn '_').length at ih
      omega

/-- What leads to a path in words leads to its words. -/
theorem prefix_wordsOf {path above : List Text} (isPrefix : above <+: path)
    (areWords : ∀ key ∈ above, '_' ∉ key) : above <+: wordsOf path := by
  obtain ⟨below, rfl⟩ := isPrefix
  rw [wordsOf, List.flatMap_append]
  exact ⟨wordsOf below, congrArg (· ++ wordsOf below) (wordsOf_eq_self areWords).symm⟩

/-- What is apart from the words of a path that are not the path is apart from the path. -/
theorem apart_of_words {path keys : List Text} (areWords : ∀ key ∈ keys, '_' ∉ key)
    (isApart : Apart (wordsOf path) keys) (notWords : ¬ ∀ key ∈ path, '_' ∉ key) :
    Apart path keys :=
  ⟨fun isPrefix => notWords fun key member => areWords key (isPrefix.subset member),
    fun isPrefix => isApart.2 (prefix_wordsOf isPrefix areWords)⟩

/-- A letter of a joined path separates its keys or is one of theirs. -/
theorem mem_intercalate {path : List Text} {separator letter : Char}
    (member : letter ∈ [separator].intercalate path) :
    letter = separator ∨ ∃ key ∈ path, letter ∈ key := by
  induction path with
  | nil => cases member
  | cons key rest ih =>
      cases rest with
      | nil =>
          rw [List.intercalate_singleton] at member
          exact .inr ⟨key, List.mem_cons_self, member⟩
      | cons next rest =>
          rw [List.intercalate_cons_cons, List.append_assoc, List.mem_append] at member
          rcases member with isKey | later
          · exact .inr ⟨key, List.mem_cons_self, isKey⟩
          rcases List.mem_cons.mp later with isSeparator | further
          · exact .inl isSeparator
          rcases ih further with isSeparator | ⟨other, isOther, inside⟩
          · exact .inl isSeparator
          · exact .inr ⟨other, List.mem_cons_of_mem _ isOther, inside⟩

/-- The codes of these letters. -/
theorem IsSnakeLetter.range {letter : Char} (isSnake : IsSnakeLetter letter) :
    97 ≤ letter.toNat ∧ letter.toNat ≤ 122 ∨ 48 ≤ letter.toNat ∧ letter.toNat ≤ 57 ∨
      letter.toNat = 95 := by
  rcases isSnake with isLower | isDigit | rfl
  · obtain ⟨least, most⟩ := Bool.and_eq_true_iff.mp isLower
    exact .inl ⟨UInt32.le_iff_toNat_le.mp (of_decide_eq_true least),
      UInt32.le_iff_toNat_le.mp (of_decide_eq_true most)⟩
  · obtain ⟨least, most⟩ := Bool.and_eq_true_iff.mp isDigit
    exact .inr (.inl ⟨UInt32.le_iff_toNat_le.mp (of_decide_eq_true least),
      UInt32.le_iff_toNat_le.mp (of_decide_eq_true most)⟩)
  · exact .inr (.inr rfl)

/-- The letters of a joined path are in snake case. -/
theorem isSnakeLetter_of_mem {path : List Text} (isSnake : ∀ key ∈ path, IsSnakeCase key)
    {letter : Char} (member : letter ∈ ['_'].intercalate path) : IsSnakeLetter letter := by
  rcases mem_intercalate member with isSeparator | ⟨key, isKey, inside⟩
  · exact .inr (.inr isSeparator)
  · exact (isSnake key isKey).2 letter inside

/-- In upper case, dotted and in lower case again. -/
theorem toLower_dot_toUpper {letter : Char} (isSnake : IsSnakeLetter letter) :
    (dot letter.toUpper).toLower = dot letter := by
  have range := isSnake.range
  have isBack : letter.toUpper.toLower = letter := toLower_toUpper (by omega)
  unfold dot
  by_cases isSeparator : letter = '_'
  · subst isSeparator
    decide
  · have notSeparator : letter.toUpper ≠ '_' := by
      intro isSame
      rw [isSame] at isBack
      exact isSeparator isBack.symm
    rw [if_neg isSeparator, if_neg notSeparator, isBack]

/-- None of this is white space. -/
theorem isWhitespace_of_snake {letter : Char} (isSnake : IsSnakeLetter letter) :
    isWhitespace letter = false := by
  have range := isSnake.range
  simp only [isWhitespace, Bool.or_eq_false_iff, Bool.and_eq_false_iff, decide_eq_false_iff_not]
  omega

/-- A dot is no blank. -/
theorem isWhitespace_dot {letter : Char} (notBlank : isWhitespace letter = false) :
    isWhitespace (dot letter) = false := by
  unfold dot
  split
  · decide
  · exact notBlank

/-- A prefix that does not start with white space: the name of a variable is trimmed before its
prefix is looked at. -/
def IsSeen (envPrefix : Text) : Prop := ∀ letter ∈ envPrefix.head?, isWhitespace letter = false

/-- The variable sets the words of the path. -/
theorem keys_variableName {envPrefix : Text} (isSeen : IsSeen envPrefix) {path : List Text}
    (isSome : path ≠ []) (isSnake : ∀ key ∈ path, IsSnakeCase key) :
    (envOf envPrefix).keys (variableName envPrefix path) = some (wordsOf path) := by
  obtain ⟨joined, isJoined⟩ : ∃ joined, joined = ['_'].intercalate path := ⟨_, rfl⟩
  have isSplit : joined.splitOn '_' = wordsOf path :=
    isJoined ▸ splitOn_intercalate_eq path isSome
  have isNamed : [] ∉ wordsOf path := fun isEmpty => by
    obtain ⟨key, member, isWord⟩ := List.mem_flatMap.mp isEmpty
    exact (isSnake key member).1 isWord
  have notNil : joined ≠ [] := by
    intro isNil
    rw [isNil, List.splitOn_nil] at isSplit
    exact isNamed (isSplit ▸ List.mem_cons_self)
  have letters : ∀ letter ∈ joined, IsSnakeLetter letter := fun letter member =>
    isSnakeLetter_of_mem isSnake (isJoined ▸ member)
  have notBlank : ∀ letter ∈ joined.map Char.toUpper, isWhitespace letter = false := by
    intro upper member
    obtain ⟨letter, inside, rfl⟩ := List.mem_map.mp member
    have range := (letters letter inside).range
    rw [← isWhitespace_toLower, toLower_toUpper (by omega)]
    exact isWhitespace_of_snake (letters letter inside)
  have isName : trim (envPrefix ++ '_' :: joined.map Char.toUpper) =
      envPrefix ++ '_' :: joined.map Char.toUpper :=
    trim_append isSeen (List.forall_mem_cons.mpr ⟨by decide, notBlank⟩) nofun
  have isKey : trim ((joined.map Char.toUpper).map dot) = (joined.map Char.toUpper).map dot := by
    refine @trim_append [] _ nofun (List.forall_mem_map.mpr fun letter member => ?_) (by simpa)
    exact isWhitespace_dot (notBlank letter member)
  have isLower : ((joined.map Char.toUpper).map dot).map Char.toLower = joined.map dot := by
    rw [List.map_map, List.map_map]
    exact List.map_congr_left fun letter member => toLower_dot_toUpper (letters letter member)
  have isKeys : (joined.map dot).splitOn '.' = wordsOf path := by
    refine (splitOn_replaced fun isDot => ?_).trans isSplit
    have range := (letters '.' isDot).range
    revert range
    decide
  unfold Env.keys envOf variableName
  rw [← isJoined, List.append_assoc, List.singleton_append]
  have isPrefix : envPrefix ++ '_' :: joined.map Char.toUpper =
      (envPrefix ++ ['_']) ++ joined.map Char.toUpper := by simp
  simp only [isName]
  rw [isPrefix, List.take_left, List.drop_left, if_pos rfl, isKey, isLower, isKeys,
    if_neg isNamed]

/-- A variable with a `.` for a `_` sets the same path, and one with an empty key sets none. -/
example :
    (envOf "APP".toList).keys " APP_DATABASE.HOST".toList =
      some ["database".toList, "host".toList] ∧
    (envOf "APP".toList).keys "APP_DATABASE__HOST".toList = none := by
  decide

/-- Under another prefix no variable is seen. -/
theorem keys_eq_none_of_not_isSeen {envPrefix : Text} (notSeen : ¬ IsSeen envPrefix)
    (name : Text) : (envOf envPrefix).keys name = none := by
  simp only [IsSeen, not_forall, Bool.not_eq_false] at notSeen
  obtain ⟨blank, isFirst, isBlank⟩ := notSeen
  cases envPrefix with
  | nil => cases isFirst
  | cons letter rest =>
      obtain rfl := Option.some.inj isFirst
      unfold Env.keys envOf
      refine if_neg fun isPrefix => ?_
      cases isTrimmed : trim name with
      | nil =>
          rw [isTrimmed] at isPrefix
          cases isPrefix
      | cons first others =>
          rw [isTrimmed] at isPrefix
          have isSame : first.toLower = letter.toLower := (List.cons.inj isPrefix).1
          have isHead : first ∈ (trim name).head? := by
            rw [isTrimmed]
            rfl
          have notBlank := isWhitespace_of_mem_head_trim isHead
          rw [← isWhitespace_toLower, isSame, isWhitespace_toLower, isBlank] at notBlank
          cases notBlank

variable {env : Env} {formats : Formats Scalar} {dict first second : Dict Scalar}
  {path : List Text} {vars : List (Text × Text)} {envPrefix : Text}

/-- The keys a variable sets are pieces between dots of a text without `_`. -/
theorem pieces_of_keys {name : Text} {keys : List Text} (isKeys : env.keys name = some keys) :
    ∃ text : Text, '_' ∉ text ∧ keys = text.splitOn '.' := by
  unfold Env.keys at isKeys
  simp only at isKeys
  split_ifs at isKeys
  refine ⟨_, fun isPart => ?_, (Option.some.inj isKeys).symm⟩
  obtain ⟨letter, inKey, isLowered⟩ := List.mem_map.mp isPart
  have inDotted := ((List.rdropWhile_prefix _ _).sublist.trans
    (List.dropWhile_sublist _)).subset inKey
  obtain ⟨source, -, rfl⟩ := List.mem_map.mp inDotted
  have isSeparator : (dot source).toNat = 95 := by
    have isCode := congrArg Char.toNat isLowered
    rw [toNat_toLower] at isCode
    change _ = 95 at isCode
    split_ifs at isCode <;> omega
  revert isSeparator
  unfold dot
  split_ifs with isOld
  · decide
  · exact fun isSeparator => isOld (Char.toNat_inj.mp isSeparator)

/-- Under a key, any value is a dictionary. -/
theorem branch_intoDict_nest {keys : List Text} (isSome : keys ≠ []) (value : Value Scalar) :
    Node.branch (intoDict (Node.nest keys value)) = Node.nest keys value := by
  cases keys with
  | nil => exact absurd rfl isSome
  | cons key rest => rfl

/-- A variable is laid over those before it. -/
theorem branch_enter (formats : Formats Scalar) (dict : Dict Scalar) {name : Text} (text : Text)
    {keys : List Text} (isKeys : env.keys name = some keys) :
    Node.branch (env.enter formats dict (name, text)) =
      (Node.branch dict).merge (Node.nest keys (formats.value text)) := by
  obtain ⟨dotted, -, isSplit⟩ := pieces_of_keys isKeys
  have isSome : keys ≠ [] := isSplit ▸ List.splitOn_ne_nil _ _
  unfold Env.enter
  rw [← branch_intoDict_nest isSome]
  simp only [isKeys]
  rfl

/-- Variables that leave a path unset do not block it. -/
theorem not_blocks_foldl (isUnset : IsUnset envPrefix vars path)
    (isOpen : ¬ (Node.branch dict).Blocks path) :
    ¬ (Node.branch (vars.foldl ((envOf envPrefix).enter formats) dict)).Blocks path := by
  induction vars generalizing dict with
  | nil => exact isOpen
  | cons entry rest ih =>
      obtain ⟨now, later⟩ := List.forall_mem_cons.mp isUnset
      rw [List.foldl_cons]
      refine ih later ?_
      cases isKeys : (envOf envPrefix).keys entry.1 with
      | none =>
          unfold Env.enter
          rwa [isKeys]
      | some keys =>
          rw [branch_enter formats dict entry.2 isKeys]
          exact Node.not_blocks_merge isOpen (Node.not_blocks_nest (now keys isKeys))

/-- So they do alone. -/
theorem not_blocks_data (isUnset : IsUnset envPrefix vars path) :
    ¬ (Node.branch ((envOf envPrefix).data formats vars)).Blocks path := by
  refine not_blocks_foldl isUnset ?_
  rintro ⟨above, content, _, _, isContent⟩
  cases above <;> cases isContent

/-- A path that is left unset is so with all that is below it. -/
theorem IsUnset.append (isUnset : IsUnset envPrefix vars path) (below : List Text) :
    IsUnset envPrefix vars (path ++ below) := fun entry member other isKeys =>
  (isUnset entry member other isKeys).append below

/-- They leave what is at the path and below it. -/
theorem find_foldl (isUnset : IsUnset envPrefix vars path) (below : List Text) :
    (Node.branch (vars.foldl ((envOf envPrefix).enter formats) dict)).find (path ++ below) =
      (Node.branch dict).find (path ++ below) := by
  induction vars generalizing dict with
  | nil => rfl
  | cons entry rest ih =>
      obtain ⟨now, later⟩ := List.forall_mem_cons.mp isUnset
      rw [List.foldl_cons, ih later]
      cases isKeys : (envOf envPrefix).keys entry.1 with
      | none =>
          unfold Env.enter
          rw [isKeys]
      | some keys =>
          rw [branch_enter formats dict entry.2 isKeys]
          exact Node.find_merge_nest_of_apart ((now keys isKeys).append below)

/-- They leave two configurations that agree beside it in agreement. -/
theorem agreeBeside_foldl (isUnset : IsUnset envPrefix vars path)
    (agree : Node.AgreeBeside path (Node.branch first) (Node.branch second)) :
    Node.AgreeBeside path
      (Node.branch (vars.foldl ((envOf envPrefix).enter formats) first))
      (Node.branch (vars.foldl ((envOf envPrefix).enter formats) second)) := by
  induction vars generalizing first second with
  | nil => exact agree
  | cons entry rest ih =>
      obtain ⟨now, later⟩ := List.forall_mem_cons.mp isUnset
      rw [List.foldl_cons, List.foldl_cons]
      refine ih later ?_
      cases isKeys : (envOf envPrefix).keys entry.1 with
      | none =>
          unfold Env.enter
          rwa [isKeys]
      | some keys =>
          rw [branch_enter formats first entry.2 isKeys, branch_enter formats second entry.2 isKeys]
          exact agree.merge_nest (now keys isKeys) _

/-- One more variable is entered after those before it. -/
theorem data_entered {name text : Text} {before after : List (Text × Text)}
    (formats : Formats Scalar) :
    env.data formats (before ++ (name, text) :: after) =
      after.foldl (env.enter formats)
        (env.enter formats (env.data formats before) (name, text)) := by
  rw [Env.data, List.foldl_append, List.foldl_cons]
  rfl

/-- Beside its path one more variable changes nothing. -/
theorem others_of_entered (base : Dict Scalar) {name text : Text}
    {before after : List (Text × Text)} (isKeys : (envOf envPrefix).keys name = some path)
    (isUnset : IsUnset envPrefix (before ++ after) path) {other : List Text}
    (apart : Apart path other) :
    (Node.branch (base.merge ((envOf envPrefix).data formats
        (before ++ (name, text) :: after)))).find other =
      (Node.branch (base.merge ((envOf envPrefix).data formats (before ++ after)))).find other := by
  obtain ⟨unsetBefore, unsetAfter⟩ := List.forall_mem_append.mp isUnset
  let earlier := (envOf envPrefix).data formats before
  have isOpen : ¬ (Node.branch earlier).Blocks path := not_blocks_data unsetBefore
  have agree : Node.AgreeBeside path
      (Node.branch ((envOf envPrefix).enter formats earlier (name, text)))
      (Node.branch earlier) := by
    rw [branch_enter formats earlier text isKeys]
    exact Node.agreeBeside_nest isOpen _
  have isPlain : (envOf envPrefix).data formats (before ++ after) =
      after.foldl ((envOf envPrefix).enter formats) earlier := by
    rw [Env.data, List.foldl_append]
    rfl
  rw [data_entered, isPlain]
  exact (agreeBeside_foldl unsetAfter agree).over (Node.branch base) apart

/-- What the environment has at the path of one more variable. -/
theorem find_entered {name text : Text} {before after : List (Text × Text)}
    (isKeys : (envOf envPrefix).keys name = some path)
    (isUnset : IsUnset envPrefix (before ++ after) path) (below : List Text) :
    (Node.branch ((envOf envPrefix).data formats
        (before ++ (name, text) :: after))).find (path ++ below) =
      ((Node.branch ((envOf envPrefix).data formats before)).merge
        (Node.nest path (formats.value text))).find (path ++ below) := by
  rw [data_entered, find_foldl (List.forall_mem_append.mp isUnset).2,
    branch_enter formats _ text isKeys]

/-- A variable whose value is no dictionary sets its path to it. -/
theorem holds_of_entered (base : Dict Scalar) {name text : Text}
    {before after : List (Text × Text)} (isKeys : (envOf envPrefix).keys name = some path)
    (isUnset : IsUnset envPrefix (before ++ after) path) {content : Scalar}
    (isContent : formats.value text = .leaf content) (below : List Text) :
    (Node.branch (base.merge ((envOf envPrefix).data formats
        (before ++ (name, text) :: after)))).find (path ++ below) =
      (formats.value text).find below := by
  have isSet : (Node.branch ((envOf envPrefix).data formats
      (before ++ (name, text) :: after))).find path = some (some content) := by
    have isEntered : (Node.branch ((envOf envPrefix).data formats
        (before ++ (name, text) :: after))).find (path ++ []) = _ :=
      find_entered isKeys isUnset []
    rw [List.append_nil] at isEntered
    rw [isEntered]
    refine Node.find_merge_of_some ?_
    have isNested := Node.find_nest_append path [] (formats.value text)
    rw [List.append_nil] at isNested
    rw [isNested, isContent]
    rfl
  rw [isContent]
  exact @Node.find_merge_leaf _ _ _ (Node.branch base) _ _ _ isSet below

/-- Every value is something. -/
theorem exists_find_nil (value : Value Scalar) : ∃ kind, value.find [] = some kind := by
  cases value with
  | leaf content => exact ⟨some content, rfl⟩
  | branch children => exact ⟨none, rfl⟩

/-- The keys a variable sets are words. -/
theorem notMem_of_keys {name : Text} {keys : List Text} (isKeys : env.keys name = some keys) :
    ∀ key ∈ keys, '_' ∉ key := by
  obtain ⟨text, isDotted, rfl⟩ := pieces_of_keys isKeys
  exact fun key isPiece inside => isDotted (mem_of_mem_splitOn isPiece inside).1

/-- Variables alone do not set a path they leave unset. -/
theorem find_data_eq_none (isSome : path ≠ []) (isUnset : IsUnset envPrefix vars path) :
    (Node.branch ((envOf envPrefix).data formats vars)).find path = none := by
  have isFound : (Node.branch ((envOf envPrefix).data formats vars)).find (path ++ []) =
      (Node.branch .nil).find (path ++ []) := find_foldl isUnset []
  rw [List.append_nil] at isFound
  rw [isFound]
  cases path with
  | nil => exact absurd rfl isSome
  | cons key rest => rfl

/-- A host with these variables. -/
def Host.withVars (host : Host) (vars : List (Text × Text)) : Host := { host with vars }

/-- In whatever is loaded under a prefix, over any files or document, one more variable sets
a path to its value and changes nothing else. -/
structure SetsPath (formats : Formats Scalar) (host : Host) (envPrefix : Text)
    (before after : List (Text × Text)) (path : List Text) (name text : Text) : Prop where
  build : ∀ (loader : Loader) (plain : Dict Scalar), loader.envPrefix = some envPrefix →
    (loader.figment formats (host.withVars (before ++ after))).value = .ok plain →
      ∃ config,
        (loader.figment formats (host.withVars (before ++ (name, text) :: after))).value =
          .ok config ∧ Sets config plain path (formats.value text)
  fromTomlStr : ∀ (toml : Text) (plain : Dict Scalar),
    (tomlStrFigment formats (host.withVars (before ++ after)) toml envPrefix).value = .ok plain →
      ∃ config,
        (tomlStrFigment formats (host.withVars (before ++ (name, text) :: after)) toml
          envPrefix).value = .ok config ∧ Sets config plain path (formats.value text)

/-- A variable whose value is no dictionary sets the keys of its name. -/
theorem setsPath_keys (formats : Formats Scalar) (host : Host) {name : Text} (text : Text)
    {before after : List (Text × Text)} (isKeys : (envOf envPrefix).keys name = some path)
    (isUnset : IsUnset envPrefix (before ++ after) path) {content : Scalar}
    (isContent : formats.value text = .leaf content) :
    SetsPath formats host envPrefix before after path name text := by
  have entered {figment : Figment Scalar} {plain : Dict Scalar}
      (isPlain : (figment.merge (.ok ((envOf envPrefix).data formats (before ++ after)))).value =
        .ok plain) :
      ∃ config, (figment.merge (.ok ((envOf envPrefix).data formats
          (before ++ (name, text) :: after)))).value = .ok config ∧
        Sets config plain path (formats.value text) := by
    obtain ⟨value⟩ := figment
    cases value with
    | error e => cases isPlain
    | ok base =>
        cases isPlain
        exact ⟨_, rfl, holds_of_entered base isKeys isUnset isContent,
          fun other apart => others_of_entered base isKeys isUnset apart⟩
  refine ⟨fun loader plain isPrefix isPlain => ?_, fun toml plain isPlain => entered isPlain⟩
  unfold Loader.figment at isPlain ⊢
  rw [isPrefix] at isPlain ⊢
  exact entered isPlain

/-- One word in lower case. -/
def IsWord (key : Text) : Prop := key ≠ [] ∧ ∀ letter ∈ key, letter.isLower ∨ letter.isDigit

/-- A document can set every path of words to something, as `database.host = 1` does. -/
def Formats.WritesWords (formats : Formats Scalar) : Prop :=
  ∀ path : List Text, path ≠ [] → (∀ key ∈ path, IsWord key) →
    ∃ toml content, formats.toml toml = .ok (intoDict (Node.nest path (.leaf content)))

/-- A key in snake case without `_` is a word. -/
theorem IsSnakeCase.isWord {key : Text} (isSnake : IsSnakeCase key) (isOne : '_' ∉ key) :
    IsWord key := by
  refine ⟨fun isNil => isSnake.1 ?_, fun letter member => ?_⟩
  · rw [isNil, List.splitOn_nil]
    exact List.mem_cons_self
  · rcases isSnake.2 letter member with isLower | isDigit | rfl
    · exact .inl isLower
    · exact .inr isDigit
    · exact absurd member isOne

/-- Some word is no key of a dictionary. -/
theorem exists_newWord (children : Dict Scalar) :
    ∃ word, IsWord word ∧ children.child word = none := by
  obtain ⟨names, others⟩ := children.exists_names
  have distinct : Function.Injective fun size => List.replicate (size + 1) 'a' := by
    intro first second same
    simpa using congrArg List.length same
  obtain ⟨word, ⟨size, isRepeated⟩, isNew⟩ :=
    (Set.infinite_range_of_injective distinct).exists_notMem_finset names.toFinset
  refine ⟨word, ⟨?_, ?_⟩, others word (mt List.mem_toFinset.mpr isNew)⟩
  · exact isRepeated ▸ nofun
  · intro letter member
    rw [← isRepeated] at member
    rw [(List.mem_replicate.mp member).2]
    exact .inl (by decide)

/-- A dictionary does not override what a document has beside its keys. -/
theorem not_setsPath_of_dictionary (formats : Formats Scalar) (writes : formats.WritesWords)
    (host : Host) {name text : Text} {before after : List (Text × Text)}
    (areWords : ∀ key ∈ path, IsWord key) (isKeys : (envOf envPrefix).keys name = some path)
    (isUnset : IsUnset envPrefix (before ++ after) path) {children : Dict Scalar}
    (isBranch : formats.value text = .branch children) :
    ¬ SetsPath formats host envPrefix before after path name text := by
  intro sets
  obtain ⟨word, isWord, isNew⟩ := exists_newWord children
  have wordAfter : ∀ key ∈ path ++ [word], IsWord key :=
    List.forall_mem_append.mpr ⟨areWords, by simpa using isWord⟩
  obtain ⟨toml, content, isToml⟩ := writes (path ++ [word]) (by simp) wordAfter
  obtain ⟨config, isConfig, holds, -⟩ := sets.fromTomlStr toml _ (tomlStrFigment_value _ _ isToml)
  obtain rfl := Except.ok.inj ((tomlStrFigment_value _ _ isToml).symm.trans isConfig)
  obtain ⟨unsetBefore, unsetAfter⟩ := List.forall_mem_append.mp isUnset
  -- The environment says nothing of the word, so what the document has there stays.
  have isNone : (Node.branch ((envOf envPrefix).data formats
      (before ++ (name, text) :: after))).find (path ++ [word]) = none := by
    rw [find_entered isKeys isUnset, isBranch, Node.find_merge_of_free]
    · exact find_data_eq_none (by simp) (IsUnset.append unsetBefore [word])
    · rw [Node.find_nest_append, Node.find_branch_cons, isNew]
      rfl
    · exact Node.not_blocks_nest_branch
  have isOpen : ¬ (Node.branch ((envOf envPrefix).data formats
      (before ++ (name, text) :: after))).Blocks (path ++ [word]) := by
    rw [data_entered]
    refine not_blocks_foldl (IsUnset.append unsetAfter [word]) ?_
    rw [branch_enter formats _ text isKeys, isBranch]
    exact Node.not_blocks_merge (not_blocks_data (IsUnset.append unsetBefore [word]))
      Node.not_blocks_nest_branch
  have isKept : ((Node.branch (intoDict (Node.nest (path ++ [word]) (.leaf content)))).merge
      (Node.branch ((envOf envPrefix).data formats
        (before ++ (name, text) :: after)))).find (path ++ [word]) = some (some content) := by
    rw [Node.find_merge_of_free isNone isOpen, branch_intoDict_nest (by simp)]
    have isNested := Node.find_nest_append (path ++ [word]) [] (.leaf content : Value Scalar)
    rwa [List.append_nil] at isNested
  have isFound := isKept.symm.trans (holds [word])
  rw [isBranch, Node.find_branch_cons, isNew] at isFound
  cases isFound

/-- The variable of a path that no other variable speaks of sets it exactly if no key of the
path has a `_`, the prefix does not start with white space, and the value is no dictionary. -/
theorem setsPath_iff (formats : Formats Scalar) (writes : formats.WritesWords) (host : Host)
    (envPrefix text : Text) (path : List Text) (before after : List (Text × Text))
    (isSome : path ≠ []) (isSnake : ∀ key ∈ path, IsSnakeCase key)
    (isUnset : IsUnset envPrefix (before ++ after) (wordsOf path)) :
    SetsPath formats host envPrefix before after path (variableName envPrefix path) text ↔
      (∀ key ∈ path, '_' ∉ key) ∧ IsSeen envPrefix ∧
        ∃ content, formats.value text = .leaf content := by
  obtain ⟨kind, isKind⟩ := exists_find_nil (formats.value text)
  constructor
  · intro sets
    -- Without a file, only the variables could have set the path.
    let loader := Loader.new.withEnvPrefix envPrefix
    obtain ⟨config, isConfig, holds, -⟩ := sets.build loader _ rfl rfl
    have isFound : (Node.branch config).find path = some kind := by
      have isHeld := holds []
      rwa [List.append_nil, isKind] at isHeld
    obtain rfl := Except.ok.inj isConfig
    have isSeen : IsSeen envPrefix := by
      by_contra notSeen
      have noneSet : IsUnset envPrefix
          (before ++ (variableName envPrefix path, text) :: after) path := by
        intro entry _ other isEntry
        cases (keys_eq_none_of_not_isSeen notSeen entry.1).symm.trans isEntry
      cases (find_data_eq_none isSome noneSet).symm.trans isFound
    have isKeys := keys_variableName isSeen isSome isSnake
    have areWords : ∀ key ∈ path, '_' ∉ key := by
      by_contra notWords
      have isApart : Apart (wordsOf path) path := by
        refine ⟨fun isPrefix => ?_, fun isPrefix => ?_⟩
        · have isSame := isPrefix.eq_of_length_le (length_le_wordsOf path)
          rw [← isSame] at notWords
          exact notWords fun key member => notMem_of_mem_wordsOf member
        · exact notWords fun key member => notMem_of_mem_wordsOf (isPrefix.subset member)
      have unsetPath : IsUnset envPrefix (before ++ after) path := fun entry member keys isEntry =>
        apart_of_words (notMem_of_keys isEntry) (isUnset entry member keys isEntry) notWords
      have isSame : (Node.branch (Forest.merge .nil ((envOf envPrefix).data formats
          (before ++ (variableName envPrefix path, text) :: after)))).find path = _ :=
        others_of_entered .nil isKeys isUnset isApart
      cases (isSame.trans (find_data_eq_none isSome unsetPath)).symm.trans isFound
    refine ⟨areWords, isSeen, ?_⟩
    rw [wordsOf_eq_self areWords] at isKeys isUnset
    cases isValue : formats.value text with
    | leaf content => exact ⟨content, rfl⟩
    | branch children =>
        have isWord : ∀ key ∈ path, IsWord key := fun key member =>
          (isSnake key member).isWord (areWords key member)
        exact absurd sets
          (not_setsPath_of_dictionary formats writes host isWord isKeys isUnset isValue)
  · rintro ⟨areWords, isSeen, content, isContent⟩
    have isKeys := keys_variableName isSeen isSome isSnake
    rw [wordsOf_eq_self areWords] at isKeys isUnset
    exact setsPath_keys formats host text isKeys isUnset isContent

/-- Documents that set one dotted key, and variables as they are. -/
def dottedFormats : Formats Text where
  toml text :=
    let key := text.takeWhile (· ≠ '=')
    .ok (intoDict (Node.nest (key.splitOn '.') (.leaf (text.drop (key.length + 1)))))
  value text := .leaf text

/-- The formats that only write words. -/
theorem dottedFormats_writesWords : dottedFormats.WritesWords := by
  intro path isSome areWords
  have letters {letter : Char} (member : letter ∈ ['.'].intercalate path) :
      letter = '.' ∨ letter.isLower ∨ letter.isDigit :=
    (mem_intercalate member).imp_right fun ⟨key, isKey, inside⟩ =>
      (areWords key isKey).2 letter inside
  have notEquals : ∀ letter ∈ ['.'].intercalate path, decide (letter ≠ '=') = true := by
    intro letter member
    rw [decide_eq_true_eq]
    rintro rfl
    rcases letters member with isDot | isLower | isDigit <;> contradiction
  have isKey : (['.'].intercalate path ++ ['=', '1']).takeWhile (· ≠ '=') =
      ['.'].intercalate path := by
    rw [List.takeWhile_append_of_pos notEquals]
    simp
  have isPath : (['.'].intercalate path).splitOn '.' = path := by
    refine List.splitOn_intercalate '.' (fun key member isDot => ?_) isSome
    rcases (areWords key member).2 '.' isDot with isLower | isDigit <;> contradiction
  refine ⟨['.'].intercalate path ++ ['=', '1'], ['1'], ?_⟩
  simp only [dottedFormats, isKey, isPath]
  simp

/-- A host without files and variables. -/
def bareHost : Host where
  files _ := none
  vars := []

/-- Two keys of one word each. -/
theorem setsPath_iff_databaseHost :
    SetsPath dottedFormats bareHost "APP".toList [] [] ["database".toList, "host".toList]
      (variableName "APP".toList ["database".toList, "host".toList]) "db.prod".toList := by
  have isWord : ∀ key ∈ ["database".toList, "host".toList], '_' ∉ key := by decide
  have isSnake : ∀ key ∈ ["database".toList, "host".toList], IsSnakeCase key := by
    intro key member
    constructor
    · rw [List.splitOn_eq_singleton (isWord key member)]
      revert key
      decide
    · revert key
      simp [IsSnakeLetter]
  have isSeen : IsSeen "APP".toList := by
    rintro _ ⟨⟩
    decide
  exact (setsPath_iff dottedFormats dottedFormats_writesWords bareHost "APP".toList
    "db.prod".toList ["database".toList, "host".toList] [] [] nofun isSnake nofun).mpr
    ⟨isWord, isSeen, _, rfl⟩

/-- The variable of a pool's limit sets `database.max.connections` instead. -/
theorem maxConnections_notSet :
    (∀ key ∈ ["database".toList, "max_connections".toList], IsSnakeCase key) ∧
      ¬ SetsPath dottedFormats bareHost "APP".toList [] []
        ["database".toList, "max_connections".toList]
        (variableName "APP".toList ["database".toList, "max_connections".toList])
        "50".toList := by
  constructor
  · intro key member
    constructor
    · revert key
      decide
    · revert key
      simp [IsSnakeLetter]
  · intro sets
    obtain ⟨config, isConfig, holds, -⟩ :=
      sets.build (Loader.new.withEnvPrefix "APP".toList) .nil rfl rfl
    obtain rfl := Except.ok.inj isConfig
    cases holds []

end AltairRs.Config
