import AltairRs.Data.Overlay
import AltairRs.Data.Text

/-!
# Layers of configuration

A `Figment` is what its providers have been merged to so far, each laid over the ones
before, or the errors of those that failed. A TOML file that does not exist is an empty
layer; the environment is a layer in which every variable of a prefix is set under its name,
split at every `_` and every `.`.
-/

namespace AltairRs.Config

open Data

/-- A string, as its characters. -/
abbrev Text := List Char

/-- A value of the configuration, with scalars and arrays left as they are. -/
abbrev Value (Scalar : Type) := Node Text Scalar

abbrev Dict (Scalar : Type) := Forest Text Scalar

/-- The chain of errors of the providers, the last one first. -/
abbrev FigmentError := List Text

/-- What a TOML document and the text of a variable are parsed to. -/
structure Formats (Scalar : Type) where
  toml : Text → Except FigmentError (Dict Scalar)
  value : Text → Value Scalar

structure Figment (Scalar : Type) where
  value : Except FigmentError (Dict Scalar)

variable {Scalar : Type}

/-- `Figment::new`. -/
def Figment.new : Figment Scalar where
  value := .ok .nil

/-- `Figment::merge`, given the data of the provider. -/
def Figment.merge (figment : Figment Scalar) (data : Except FigmentError (Dict Scalar)) :
    Figment Scalar where
  value :=
    match figment.value, data with
    | .ok merged, .ok next => .ok (merged.merge next)
    | .error e, .ok _ => .error e
    | .ok _, .error e => .error e
    | .error before, .error e => .error (e ++ before)

/-- The data of `Toml::string`. -/
def tomlString (formats : Formats Scalar) (text : Text) : Except FigmentError (Dict Scalar) :=
  formats.toml text

/-- The data of `Toml::file`, given the text of the file if there is one. -/
def tomlFile (formats : Formats Scalar) (file : Option Text) : Except FigmentError (Dict Scalar) :=
  match file with
  | none => .ok .nil
  | some text => formats.toml text

/-- `Env::prefixed(..).split('_')`: the prefix is compared without regard to case. -/
structure Env where
  prefixed : Text

/-- `split('_')`: a `_` nests as a `.` does. -/
def dot (letter : Char) : Char := if letter = '_' then '.' else letter

/-- The keys a variable is set under, if it has the prefix: what follows it is split at every
`.`, which every `_` is turned into. White space around the name or around the rest does not
count, and a variable that would set an empty key is left out. -/
def Env.keys (env : Env) (name : Text) : Option (List Text) :=
  let name := trim name
  let size := env.prefixed.length
  if (name.take size).map Char.toLower = env.prefixed.map Char.toLower then
    let key := trim ((name.drop size).map dot)
    let keys := (key.map Char.toLower).splitOn '.'
    if [] ∈ keys then none else some keys
  else
    none

/-- The dictionary of a value that is one. -/
def intoDict : Value Scalar → Dict Scalar
  | .branch children => children
  -- Only a value under no key at all would be asked for it.
  | .leaf _ => .nil

/-- One variable more. -/
def Env.enter (env : Env) (formats : Formats Scalar) (dict : Dict Scalar) (entry : Text × Text) :
    Dict Scalar :=
  match env.keys entry.1 with
  | none => dict
  | some keys => dict.merge (intoDict (Node.nest keys (formats.value entry.2)))

/-- The data of the environment: the variables in its order. -/
def Env.data (env : Env) (formats : Formats Scalar) (vars : List (Text × Text)) : Dict Scalar :=
  vars.foldl (env.enter formats) .nil

end AltairRs.Config
