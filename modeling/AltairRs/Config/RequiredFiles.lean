import AltairRs.Config.Loader

/-!
# Files that are required

A required file that does not exist is merged as an empty layer, like an optional one that
is skipped. So a load fails for it, whatever the target type, exactly if there is no such
file or another one is malformed.
-/

namespace AltairRs.Config

open Data Unix

variable {Scalar : Type} {formats : Formats Scalar} {host : Host}

/-- Whatever the target type, a load fails if a required file does not exist, and an
optional one that does not exist makes no difference. -/
structure RequiresFiles (formats : Formats Scalar) (host : Host) (loader : Loader) : Prop where
  required : ∀ {T : Type} (target : Target Scalar T),
    (∃ path, (path, false) ∈ loader.files ∧ host.files path = none) →
      ∃ e, loader.build formats host target = .error e
  optional : ∀ {T : Type} (target : Target Scalar T) front path back,
    loader.files = front ++ (path, true) :: back → host.files path = none →
      loader.build formats host target =
        { loader with files := front ++ back }.build formats host target

/-- A file exists and is not TOML. -/
def IsMalformed (formats : Formats Scalar) (host : Host) (path : Path) : Prop :=
  ∃ text e, host.files path = some text ∧ formats.toml text = .error e

def Figment.IsError (figment : Figment Scalar) : Prop := ∃ e, figment.value = .error e

/-- A figment with a dictionary is no error. -/
theorem not_isError_ok (dict : Dict Scalar) : ¬ Figment.IsError ⟨.ok dict⟩ := by
  rintro ⟨_, isError⟩
  cases isError

/-- An error of a provider stays. -/
theorem Figment.merge_isError_iff (figment : Figment Scalar)
    (data : Except FigmentError (Dict Scalar)) :
    (figment.merge data).IsError ↔ figment.IsError ∨ ∃ e, data = .error e := by
  obtain ⟨value⟩ := figment
  cases value with
  | error e =>
      refine ⟨fun _ => .inl ⟨e, rfl⟩, fun _ => ?_⟩
      cases data with
      | error last => exact ⟨last ++ e, rfl⟩
      | ok dict => exact ⟨e, rfl⟩
  | ok merged =>
      cases data with
      | error e => exact ⟨fun _ => .inr ⟨e, rfl⟩, fun _ => ⟨e, rfl⟩⟩
      | ok dict =>
          refine iff_of_false (not_isError_ok _) ?_
          rintro (⟨_, isError⟩ | ⟨_, isError⟩)
          · cases isError
          · cases isError

/-- A file is an error if it is malformed; whether it is required does not matter. -/
theorem addFile_isError_iff (figment : Figment Scalar) (file : Path × Bool) :
    (Loader.addFile formats host figment file).IsError ↔
      figment.IsError ∨ IsMalformed formats host file.1 := by
  obtain ⟨path, isOptional⟩ := file
  unfold Loader.addFile IsMalformed
  cases isFile : host.files path with
  | none =>
      have isSame : (∃ text e, (none : Option Text) = some text ∧ formats.toml text = .error e) ↔
          False := by simp
      simp only [Option.isNone_none, Bool.and_true]
      rw [isSame, or_false]
      cases isOptional with
      | true => exact Iff.rfl
      | false =>
          rw [if_neg Bool.false_ne_true, Figment.merge_isError_iff]
          exact or_iff_left (not_isError_ok .nil)
  | some text =>
      simp only [Option.isNone_some, Bool.and_false, Bool.false_eq_true, if_false]
      rw [Figment.merge_isError_iff]
      simp [tomlFile]

/-- The loop fails exactly at a malformed file. -/
theorem addFiles_isError_iff (files : List (Path × Bool)) (figment : Figment Scalar) :
    (files.foldl (Loader.addFile formats host) figment).IsError ↔
      figment.IsError ∨ ∃ file ∈ files, IsMalformed formats host file.1 := by
  induction files generalizing figment with
  | nil => simp
  | cons file rest ih =>
      rw [List.foldl_cons, ih, addFile_isError_iff, List.exists_mem_cons_iff, or_assoc]

/-- Loading fails exactly on a file that is malformed. -/
theorem figment_isError_iff (loader : Loader) :
    (loader.figment formats host).IsError ↔
      ∃ file ∈ loader.files, IsMalformed formats host file.1 := by
  have isNew : ¬ (Figment.new : Figment Scalar).IsError := not_isError_ok .nil
  have isLoop : (loader.files.foldl (Loader.addFile formats host) Figment.new).IsError ↔ _ :=
    addFiles_isError_iff loader.files Figment.new
  unfold Loader.figment
  cases loader.envPrefix with
  | none => rw [isLoop, or_iff_right isNew]
  | some envPrefix =>
      simp only
      rw [Figment.merge_isError_iff, isLoop, or_iff_right isNew]
      exact or_iff_left (not_isError_ok _)

/-- A file that is skipped makes no difference. -/
theorem figment_of_skipped (loader : Loader) (front back : List (Path × Bool)) {path : Path}
    (isFiles : loader.files = front ++ (path, true) :: back) (isMissing : host.files path = none) :
    loader.figment formats host = { loader with files := front ++ back }.figment formats host := by
  have isSkipped (figment : Figment Scalar) :
      Loader.addFile formats host figment (path, true) = figment := by
    simp [Loader.addFile, isMissing]
  simp only [Loader.figment, isFiles, List.foldl_append, List.foldl_cons, isSkipped]

/-- The type that takes any configuration. -/
def anything : Target Scalar Unit where
  extract _ := .ok ()
  validate _ := .ok ()

/-- Files are required exactly if every required file exists, or some file of the loader
exists and is not TOML. -/
theorem requiresFiles_iff (formats : Formats Scalar) (host : Host) (loader : Loader) :
    RequiresFiles formats host loader ↔
      (∀ path, (path, false) ∈ loader.files → (host.files path).isSome) ∨
        ∃ file ∈ loader.files, IsMalformed formats host file.1 := by
  constructor
  · intro requires
    by_contra neither
    obtain ⟨notAll, notMalformed⟩ := not_or.mp neither
    obtain ⟨path, isMissing⟩ := not_forall.mp notAll
    obtain ⟨member, isMissing⟩ := Classical.not_imp.mp isMissing
    obtain ⟨e, isError⟩ := requires.required anything
      ⟨path, member, Option.not_isSome_iff_eq_none.mp isMissing⟩
    -- A type that takes anything is loaded if nothing is malformed.
    have notError := mt (figment_isError_iff loader).mp notMalformed
    unfold Loader.build load at isError
    cases isValue : (loader.figment formats host).value with
    | error e => exact notError ⟨e, isValue⟩
    | ok dict =>
        rw [isValue] at isError
        cases isError
  · intro either
    refine ⟨fun {T} target isMissing => ?_, fun {T} target front path back isFiles isMissing => ?_⟩
    · obtain ⟨path, member, isMissing⟩ := isMissing
      rcases either with exist | malformed
      · have isThere := exist path member
        rw [isMissing] at isThere
        cases isThere
      · obtain ⟨e, isError⟩ := (figment_isError_iff loader).mpr malformed
        refine ⟨.parse e, ?_⟩
        rw [Loader.build, load, isError]
    · rw [Loader.build, Loader.build, figment_of_skipped loader front back isFiles isMissing]

/-- A service whose port has a default. -/
def portTarget : Target Text Text where
  extract dict :=
    match (Node.branch dict).find ["port".toList] with
    | some (some port) => .ok port
    | _ => .ok "8080".toList
  validate _ := .ok ()

/-- Its only file is required and does not exist, and it is loaded. -/
theorem missingFile_isLoaded :
    ¬ RequiresFiles ⟨fun _ => .ok .nil, fun text => .leaf text⟩ ⟨fun _ => none, []⟩
      (Loader.new.tomlFile [.normal "app.toml"]) := by
  intro requires
  obtain ⟨e, isError⟩ :=
    requires.required portTarget ⟨[.normal "app.toml"], List.mem_cons_self, rfl⟩
  cases isError

end AltairRs.Config
