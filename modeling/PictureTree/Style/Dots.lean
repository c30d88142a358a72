/-
# `Style.Dots` — how points are marked

The diameter of a dot is a length plus a multiple of the line width, and all
of it scaled.
-/
import PictureTree.Style.Reading

open scoped PictureTree.Scalar

namespace PictureTree

/-- The figure that marks a point. -/
inductive DotStyle where
  | dot | o | plus | x | asterisk | oplus | otimes | bar
  | square | squareFilled
  | diamond | diamondFilled
  | triangle | triangleFilled
  | pentagon | pentagonFilled
deriving DecidableEq, Repr

/-- How points are marked; the angle is in radians. -/
structure Dots (α : Type) where
  style : DotStyle
  size : α × α
  scale : α
  angle : α
deriving Repr

namespace Dots

variable {α : Type} [Scalar α]

/-- The names of dot styles. -/
def styleNames : List (String × DotStyle) :=
  [("*", .dot), ("o", .o), ("+", .plus), ("x", .x), ("asterisk", .asterisk), ("oplus", .oplus),
   ("otimes", .otimes), ("|", .bar), ("square", .square), ("square*", .squareFilled),
   ("diamond", .diamond), ("diamond*", .diamondFilled), ("triangle", .triangle),
   ("triangle*", .triangleFilled), ("pentagon", .pentagon), ("pentagon*", .pentagonFilled)]

/-- The diameter of a dot beside lines of the given width. -/
def diameter (d : Dots α) (lineWidth : α) : α :=
  (d.size.1 + d.size.2 * lineWidth) * d.scale

/-- A change of dots. -/
inductive Setting (α : Type) where
  | style (s : DotStyle)
  | size (m : α × α)
  | scale (x : α)
  | angle (a : α)

/-- The key of a setting. -/
def Setting.key : Setting α → String
  | .style _ => "dotstyle"
  | .size _ => "dotsize"
  | .scale _ => "dotscale"
  | .angle _ => "dotangle"

/-- The setting that a key and its value make. -/
def Setting.read? (r : Reading α) (p : Param) : Option (Except ResolveError (Setting α)) :=
  match p.key with
  | "dotstyle" => some ((Reading.choice styleNames p).map .style)
  | "dotsize" => some ((r.sizeAndFactor p).map .size)
  | "dotscale" => some ((Reading.number p).map .scale)
  | "dotangle" => some ((Reading.angle p).map .angle)
  | _ => none

/-- The dots with a change made. -/
def put (d : Dots α) : Setting α → Dots α
  | .style s => { d with style := s }
  | .size m => { d with size := m }
  | .scale x => { d with scale := x }
  | .angle a => { d with angle := a }

end Dots

end PictureTree
