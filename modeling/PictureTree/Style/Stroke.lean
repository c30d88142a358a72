/-
# `Style.Stroke` — how lines are drawn

Besides the record that shapes carry, this module has the settings that change
it.  A setting knows the key it is written under (`Setting.key`), how it is
read (`Setting.read?`, which answers nothing for a foreign key) and what it
does (`Stroke.put`); the other modules of this folder are built the same way.
-/
import PictureTree.Style.Reading

open scoped PictureTree.Scalar

namespace PictureTree

/-- The pattern of a line. -/
inductive LineStyle where
  | solid | dashed | dotted | none
deriving DecidableEq, Repr

/-- Where a line lies on the border of a shape. -/
inductive BorderPosition where
  | into | out | mid
deriving DecidableEq, Repr

/-- How lines are drawn; lengths in pixels. -/
structure Stroke (α : Type) where
  color : Color α
  thickness : α
  style : LineStyle
  dashBlack : α
  dashWhite : α
  dotSep : α
  border : BorderPosition
  opacity : α
deriving Repr

namespace Stroke

variable {α : Type} [Scalar α]

/-- A thin black line. -/
def plain : Stroke α := ⟨.black, 1, .solid, 0, 0, 0, .into, 1⟩

/-- The names of line styles. -/
def styleNames : List (String × LineStyle) :=
  [("solid", .solid), ("dashed", .dashed), ("dotted", .dotted), ("none", .none)]

/-- The names of border positions: which border the measures of a shape are
those of. -/
def borderNames : List (String × BorderPosition) :=
  [("outer", .into), ("inner", .out), ("middle", .mid)]

/-- A change of a stroke. -/
inductive Setting (α : Type) where
  | color (c : Color α)
  | thickness (w : α)
  | style (s : LineStyle)
  | dash (black white : α)
  | dotSep (d : α)
  | border (b : BorderPosition)
  | opacity (o : α)

/-- The key of a setting. -/
def Setting.key : Setting α → String
  | .color _ => "linecolor"
  | .thickness _ => "linewidth"
  | .style _ => "linestyle"
  | .dash .. => "dash"
  | .dotSep _ => "dotsep"
  | .border _ => "dimen"
  | .opacity _ => "strokeopacity"

/-- The setting that a key and its value make. -/
def Setting.read? (r : Reading α) (p : Param) : Option (Except ResolveError (Setting α)) :=
  match p.key with
  | "linecolor" => some ((r.color p).map .color)
  | "linewidth" => some ((r.extent p).map .thickness)
  | "linestyle" => some ((Reading.choice styleNames p).map .style)
  | "dash" => some ((r.twoExtents p).map fun (black, white) => .dash black white)
  | "dotsep" => some ((r.extent p).map .dotSep)
  | "dimen" => some ((Reading.choice borderNames p).map .border)
  | "strokeopacity" => some ((Reading.number p).map .opacity)
  | _ => none

/-- The stroke with a change made; an opacity out of range changes nothing. -/
def put (s : Stroke α) : Setting α → Stroke α
  | .color c => { s with color := c }
  | .thickness w => { s with thickness := w }
  | .style l => { s with style := l }
  | .dash black white => { s with dashBlack := black, dashWhite := white }
  | .dotSep d => { s with dotSep := d }
  | .border b => { s with border := b }
  | .opacity o => if Scalar.inUnit o then { s with opacity := o } else s

end Stroke

end PictureTree
