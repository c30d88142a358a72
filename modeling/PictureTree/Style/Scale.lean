/-
# `Style.Scale` — the units of a scope
-/
import PictureTree.Style.Reading

open scoped PictureTree.Scalar

namespace PictureTree.Units

variable {α : Type} [Scalar α]

/-- A change of units, in centimetres. -/
inductive Setting (α : Type) where
  | unit (cm : α)
  | xUnit (cm : α)
  | yUnit (cm : α)

/-- The key of a setting. -/
def Setting.key : Setting α → String
  | .unit _ => "unit"
  | .xUnit _ => "xunit"
  | .yUnit _ => "yunit"

/-- The setting that a key and its value make. -/
def Setting.read? (p : Param) : Option (Except ResolveError (Setting α)) :=
  match p.key with
  | "unit" => some ((Reading.unitLength p).map .unit)
  | "xunit" => some ((Reading.unitLength p).map .xUnit)
  | "yunit" => some ((Reading.unitLength p).map .yUnit)
  | _ => none

/-- The units with a change made. -/
def put (u : Units α) : Setting α → Units α
  | .unit cm => { u with unit := cm }
  | .xUnit cm => { u with xUnit := cm }
  | .yUnit cm => { u with yUnit := cm }

end PictureTree.Units
