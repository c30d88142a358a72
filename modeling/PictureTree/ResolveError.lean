/-
# `ResolveError` — why a setting or a colour cannot be used

None of these stops a drawing: whoever meets one keeps the value it had.
-/
import PictureTree.Text.Quoted

namespace PictureTree

/-- What cannot be resolved. -/
inductive ResolveError where
  | unknownColor (name : String)
  | unknownColorModel (model : String)
  | invalidColorValues (model values : String)
  | unknownParameter (key : String)
  | invalidValue (key value : String)
deriving DecidableEq, Repr

/-- What a `ResolveError` says. -/
def ResolveError.message : ResolveError → String
  | .unknownColor name => "unknown color: " ++ name
  | .unknownColorModel model => "unknown color model: " ++ model
  | .invalidColorValues model values =>
    "invalid " ++ model ++ " color values: " ++ Text.quoted values
  | .unknownParameter key => "unknown parameter: " ++ key
  | .invalidValue key value => "invalid value for " ++ key ++ ": " ++ Text.quoted value

end PictureTree
