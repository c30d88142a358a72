/-
# `Setting` — what a parameter changes

A setting belongs to one of the style families, or it is one of the three that
stand alone: the rounding of frames, the marking of points, and the angle that
every shape is turned by.  `Setting.read` finds the family of a key; a key of
no family is an unknown parameter.
-/
import PictureTree.Style.Arrows
import PictureTree.Style.Axes
import PictureTree.Style.Border
import PictureTree.Style.Dots
import PictureTree.Style.Filling
import PictureTree.Style.Grid
import PictureTree.Style.Plotting
import PictureTree.Style.Scale
import PictureTree.Style.Stroke

open scoped PictureTree.Scalar

namespace PictureTree

/-- A change of a drawing context. -/
inductive Setting (α : Type) where
  | scale (s : Units.Setting α)
  | stroke (s : Stroke.Setting α)
  | frameArc (x : α)
  | filling (s : Filling.Setting α)
  | double (s : DoubleLine.Setting α)
  | shadow (s : Shadow.Setting α)
  | arrows (s : Arrows.Setting α)
  | dots (s : Dots.Setting α)
  | showPoints (b : Bool)
  | grid (s : GridStyle.Setting α)
  | axes (s : AxesStyle.Setting α)
  | plotting (s : Plotting.Setting)
  | shapeAngle (radians : α)

namespace Setting

variable {α : Type} [Scalar α]

/-- The key of a setting. -/
def key : Setting α → String
  | .scale s => s.key
  | .stroke s => s.key
  | .frameArc _ => "framearc"
  | .filling s => s.key
  | .double s => s.key
  | .shadow s => s.key
  | .arrows s => s.key
  | .dots s => s.key
  | .showPoints _ => "showpoints"
  | .grid s => s.key
  | .axes s => s.key
  | .plotting s => s.key
  | .shapeAngle _ => "gangle"

/-- The setting of a key that belongs to no family. -/
def readAlone? (p : Param) : Option (Except ResolveError (Setting α)) :=
  match p.key with
  | "framearc" => some ((Reading.number p).map fun x => .frameArc (Scalar.clampUnit x))
  | "showpoints" => some ((Reading.flag p).map .showPoints)
  | "gangle" => some ((Reading.number p).map fun degrees => .shapeAngle (Scalar.rotation degrees))
  | _ => none

/-- The setting of a family, if the key is one of its keys. -/
def within {σ : Type} (wrap : σ → Setting α) (read : Option (Except ResolveError σ)) :
    Option (Except ResolveError (Setting α)) :=
  read.map fun s => s.map wrap

/-- The setting that a parameter makes. -/
def read (r : Reading α) (p : Param) : Except ResolveError (Setting α) :=
  let found : Option (Except ResolveError (Setting α)) :=
    within .scale (Units.Setting.read? p) <|>
    within .stroke (Stroke.Setting.read? r p) <|>
    within .filling (Filling.Setting.read? r p) <|>
    within .double (DoubleLine.Setting.read? r p) <|>
    within .shadow (Shadow.Setting.read? r p) <|>
    within .arrows (Arrows.Setting.read? r p) <|>
    within .dots (Dots.Setting.read? r p) <|>
    within .grid (GridStyle.Setting.read? r p) <|>
    within .axes (AxesStyle.Setting.read? r p) <|>
    within .plotting (Plotting.Setting.read? p) <|>
    readAlone? p
  found.getD (.error (.unknownParameter p.key))

end Setting

end PictureTree
