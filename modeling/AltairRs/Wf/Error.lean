/-!
# Errors of the workflow patterns

The error type every pattern and the chunked sync return, with the exact texts
`Display` gives them. An activity's boxed source is kept as its rendered text.
-/

namespace AltairRs.Wf

/-- `altair_wf::Error`. -/
inductive Error where
  | invalidInput (message : String)
  | patternStopped (position reason : String)
  | activity (activity source : String)
deriving DecidableEq, Repr

/-- `Display` of an error. -/
def Error.toString : Error → String
  | .invalidInput message => "invalid input: " ++ message
  | .patternStopped position reason =>
      "pattern stopped at step " ++ position ++ ": " ++ reason
  | .activity name source => "activity '" ++ name ++ "' failed: " ++ source

instance : ToString Error := ⟨Error.toString⟩

/-- The crate's result alias. -/
abbrev Result (α : Type) := Except Error α

/-- How `{:?}` writes a value. For a text, which characters it escapes is in tables of
the standard library. -/
class DebugText (α : Type) where
  debug : α → String

end AltairRs.Wf
