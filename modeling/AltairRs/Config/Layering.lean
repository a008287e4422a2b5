import AltairRs.Config.RequiredFiles
import AltairRs.Data.Layers

/-!
# The last layer decides

A loader merges its files in the order they were added, and the environment last. What
the target is extracted from has at every key path what the last source has there that
says something of it, and nothing of the ones before.
-/

namespace AltairRs.Config

open Data Unix

variable {Scalar : Type} (formats : Formats Scalar) (host : Host)

/-- What a file says, if there is one. -/
def fileLayer (file : Path × Bool) : Option (Value Scalar) :=
  (host.files file.1).map fun text => .branch ((formats.toml text).toOption.getD .nil)

/-- What the environment says under a prefix. -/
def envLayer (envPrefix : Text) : Value Scalar := .branch ((envOf envPrefix).data formats host.vars)

/-- What the sources of a loader say, in the order in which they are merged. -/
def Loader.layers (loader : Loader) : List (Value Scalar) :=
  loader.files.filterMap (fileLayer formats host) ++
    (loader.envPrefix.map (envLayer formats host)).toList

/-- A load extracts its target from what these layers leave, the last one on top. -/
def LoadsLayers (build : {T : Type} → Target Scalar T → Result T) (layers : List (Value Scalar)) :
    Prop :=
  ∃ dict : Dict Scalar,
    (∀ {T : Type} (target : Target Scalar T), build target = load target ⟨.ok dict⟩) ∧
      ∀ path found, (Node.branch dict).find path = found ↔
        Node.Decided (.branch .nil) layers path found

variable {formats host}

/-- The dictionary that layers leave. -/
theorem loadsLayers_of_overlay {build : {T : Type} → Target Scalar T → Result T}
    {figment : Figment Scalar} {dict : Dict Scalar} {layers : List (Value Scalar)}
    (isLoad : ∀ {T : Type} (target : Target Scalar T), build target = load target figment)
    (isValue : figment.value = .ok dict)
    (isOverlay : Node.branch dict = Node.overlay (.branch .nil) layers) :
    LoadsLayers build layers := by
  refine ⟨dict, fun target => ?_, fun path found => ?_⟩
  · refine (isLoad target).trans ?_
    rw [load, load, isValue]
  · rw [isOverlay, Node.decided_iff]

/-- A file that is TOML is one more layer. -/
theorem addFile_value {figment : Figment Scalar} {dict : Dict Scalar} {file : Path × Bool}
    (isValue : figment.value = .ok dict) (parses : ¬ IsMalformed formats host file.1) :
    ∃ next, (Loader.addFile formats host figment file).value = .ok next ∧
      Node.branch next = Node.overlay (.branch dict) (fileLayer formats host file).toList := by
  unfold Loader.addFile fileLayer
  cases isFile : host.files file.1 with
  | none =>
      refine ⟨dict, ?_, rfl⟩
      cases file.2 with
      | true => exact isValue
      | false =>
          change (figment.merge (.ok .nil)).value = .ok dict
          simp only [Figment.merge, isValue, Forest.merge_nil]
  | some text =>
      have notSkipped : (file.2 && (some text).isNone) = false := Bool.and_false _
      rw [notSkipped, if_neg Bool.false_ne_true]
      cases isToml : formats.toml text with
      | error e => exact absurd ⟨text, e, isFile, isToml⟩ parses
      | ok layer =>
          refine ⟨dict.merge layer, ?_, ?_⟩
          · simp only [Figment.merge, isValue, tomlFile, isToml]
          · rw [Option.map_some, isToml]
            rfl

/-- The loop over the files lays them over each other. -/
theorem addFiles_value {files : List (Path × Bool)} {figment : Figment Scalar}
    {dict : Dict Scalar} (isValue : figment.value = .ok dict)
    (parse : ∀ file ∈ files, ¬ IsMalformed formats host file.1) :
    ∃ next, (files.foldl (Loader.addFile formats host) figment).value = .ok next ∧
      Node.branch next =
        Node.overlay (.branch dict) (files.filterMap (fileLayer formats host)) := by
  induction files generalizing figment dict with
  | nil => exact ⟨dict, isValue, rfl⟩
  | cons file rest ih =>
      obtain ⟨parses, restParse⟩ := List.forall_mem_cons.mp parse
      obtain ⟨middle, isMiddle, middleOverlay⟩ := addFile_value isValue parses
      obtain ⟨next, isNext, nextOverlay⟩ := ih isMiddle restParse
      refine ⟨next, isNext, ?_⟩
      rw [nextOverlay, middleOverlay, ← Node.overlay_append, List.filterMap_cons]
      cases fileLayer formats host file <;> rfl

/-- The environment is laid over the files. -/
theorem figment_value {loader : Loader}
    (parse : ∀ file ∈ loader.files, ¬ IsMalformed formats host file.1) :
    ∃ dict, (loader.figment formats host).value = .ok dict ∧
      Node.branch dict = Node.overlay (.branch .nil) (loader.layers formats host) := by
  have isNew : (Figment.new : Figment Scalar).value = .ok .nil := rfl
  obtain ⟨files, isValue, isOverlay⟩ := addFiles_value isNew parse
  unfold Loader.figment Loader.layers
  cases loader.envPrefix with
  | none => exact ⟨files, isValue, by rw [isOverlay]; simp⟩
  | some envPrefix =>
      refine ⟨files.merge ((envOf envPrefix).data formats host.vars), ?_, ?_⟩
      · simp only [Figment.merge, isValue]
      · rw [Node.overlay_append, ← isOverlay]
        rfl

/-- Every load sees, at every key path, what the last of its sources says that says
something there: the environment before the files, and a later file before an earlier
one. The same holds of a text instead of a file. -/
theorem lastLayer_decides (formats : Formats Scalar) (host : Host) :
    (∀ loader : Loader, (∀ file ∈ loader.files, ¬ IsMalformed formats host file.1) →
      LoadsLayers (loader.build formats host) (loader.layers formats host)) ∧
    ∀ (toml envPrefix : Text) (dict : Dict Scalar), formats.toml toml = .ok dict →
      LoadsLayers (fromTomlStr formats host toml envPrefix)
        [.branch dict, envLayer formats host envPrefix] := by
  constructor
  · intro loader parse
    obtain ⟨dict, isValue, isOverlay⟩ := figment_value parse
    exact loadsLayers_of_overlay (fun _ => rfl) isValue isOverlay
  · intro toml envPrefix dict isToml
    have isValue : (tomlStrFigment formats host toml envPrefix).value = _ :=
      tomlStrFigment_value formats host isToml
    exact loadsLayers_of_overlay (fun _ => rfl) isValue rfl

/-- A file of defaults, and one that may override them. -/
def baseAndLocal : Loader :=
  (Loader.new.tomlFile [.normal "base.toml"]).tomlFileOptional [.normal "local.toml"]

/-- Every file sets the port to its text. -/
def portFormats : Formats Text where
  toml text := .ok (.leaf "port".toList text .nil)
  value text := .leaf text

/-- Both files exist. -/
def twoFiles : Host where
  files path := some (if path = [.normal "local.toml"] then "9090".toList else "8080".toList)
  vars := []

/-- The local file decides the port. -/
theorem lastLayer_decides_baseAndLocal :
    LoadsLayers (baseAndLocal.build portFormats twoFiles)
      [.branch (.leaf "port".toList "8080".toList .nil),
        .branch (.leaf "port".toList "9090".toList .nil)] :=
  (lastLayer_decides portFormats twoFiles).1 baseAndLocal fun _ _ ⟨_, _, _, isError⟩ => by
    cases isError

end AltairRs.Config
