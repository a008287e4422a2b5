import AltairRs.Config.Figment
import AltairRs.Unix.FileSystem

/-!
# The layered loader

`Loader.build` merges the files in the order they were added and the environment over them,
and then has the target type extracted and validated.
-/

namespace AltairRs.Config

open Unix

/-- The errors of a load. -/
inductive Error where
  | parse (source : FigmentError)
  | validation (errors : Text)
deriving DecidableEq, Repr

/-- The crate's result alias. -/
abbrev Result (α : Type) := Except Error α

/-- A type that configuration is loaded into: `Deserialize` and `Validate`. -/
structure Target (Scalar T : Type) where
  extract : Dict Scalar → Except FigmentError T
  validate : T → Except Text Unit

/-- What a load reads: the files that exist, and the environment. -/
structure Host where
  files : Path → Option Text
  vars : List (Text × Text)

/-- The files, each with whether it is optional, and the prefix of the environment. -/
structure Loader where
  files : List (Path × Bool) := []
  envPrefix : Option Text := none

namespace Loader

/-- `Loader::new`. -/
def new : Loader := {}

/-- `Loader::toml_file`. -/
def tomlFile (loader : Loader) (path : Path) : Loader :=
  { loader with files := loader.files ++ [(path, false)] }

/-- `Loader::toml_file_optional`. -/
def tomlFileOptional (loader : Loader) (path : Path) : Loader :=
  { loader with files := loader.files ++ [(path, true)] }

/-- `Loader::env_prefix`. -/
def withEnvPrefix (loader : Loader) (envPrefix : Text) : Loader :=
  { loader with envPrefix := some envPrefix }

end Loader

/-- The environment under a prefix. -/
def envOf (envPrefix : Text) : Env where
  prefixed := envPrefix ++ ['_']

variable {Scalar T : Type} (formats : Formats Scalar) (host : Host)

/-- The body of the loop over the files. -/
def Loader.addFile (figment : Figment Scalar) (file : Path × Bool) : Figment Scalar :=
  if file.2 && (host.files file.1).isNone then
    figment
  else
    figment.merge (Config.tomlFile formats (host.files file.1))

/-- What `Loader::build` merges. -/
def Loader.figment (loader : Loader) : Figment Scalar :=
  let figment := loader.files.foldl (Loader.addFile formats host) Figment.new
  match loader.envPrefix with
  | none => figment
  | some envPrefix => figment.merge (.ok ((envOf envPrefix).data formats host.vars))

/-- Extract and validate. -/
def load (target : Target Scalar T) (figment : Figment Scalar) : Result T :=
  match figment.value with
  | .error e => .error (.parse e)
  | .ok dict =>
      match target.extract dict with
      | .error e => .error (.parse e)
      | .ok value =>
          match target.validate value with
          | .error e => .error (.validation e)
          | .ok () => .ok value

/-- `Loader::build`. -/
def Loader.build (loader : Loader) (target : Target Scalar T) : Result T :=
  load target (loader.figment formats host)

/-- What `from_toml_str` merges. -/
def tomlStrFigment (toml envPrefix : Text) : Figment Scalar :=
  (Figment.new.merge (tomlString formats toml)).merge
    (.ok ((envOf envPrefix).data formats host.vars))

/-- A document that is TOML, with the environment over it. -/
theorem tomlStrFigment_value {toml envPrefix : Text} {dict : Dict Scalar}
    (isToml : formats.toml toml = .ok dict) :
    (tomlStrFigment formats host toml envPrefix).value =
      .ok (dict.merge ((envOf envPrefix).data formats host.vars)) := by
  simp only [tomlStrFigment, tomlString, Figment.merge, Figment.new, isToml]
  rfl

/-- `from_toml_str`. -/
def fromTomlStr (toml envPrefix : Text) (target : Target Scalar T) : Result T :=
  load target (tomlStrFigment formats host toml envPrefix)

end AltairRs.Config
