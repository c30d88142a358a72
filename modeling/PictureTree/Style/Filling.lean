/-
# `Style.Filling` — how areas are filled

An area is left empty, filled with a colour or a gradient, or hatched in one
of three directions, with the colour beneath the lines or without.
-/
import PictureTree.Style.Reading

open scoped PictureTree.Scalar

namespace PictureTree

/-- What an area is filled with. -/
inductive FillingStyle where
  | none | plain | gradient
  | crossLines | verticalLines | horizontalLines
  | crossLinesPlain | verticalLinesPlain | horizontalLinesPlain
deriving DecidableEq, Repr

/-- A change of colour along a direction. -/
structure Gradient (α : Type) where
  start : Color α
  stop : Color α
  angle : α
  midPoint : α
deriving Repr

/-- Parallel lines. -/
structure Hatching (α : Type) where
  angle : α
  sep : α
  width : α
  color : Color α
deriving Repr

/-- How areas are filled. -/
structure Filling (α : Type) where
  style : FillingStyle
  color : Color α
  opacity : α
  gradient : Gradient α
  hatching : Hatching α
deriving Repr

namespace Filling

variable {α : Type} [Scalar α]

/-- No filling. -/
def empty : Filling α := ⟨.none, .white, 1, ⟨.black, .black, 0, 0⟩, ⟨0, 0, 0, .black⟩⟩

/-- The names of filling styles. -/
def styleNames : List (String × FillingStyle) :=
  [("none", .none), ("solid", .plain), ("gradient", .gradient),
   ("crosshatch", .crossLines), ("crosshatch*", .crossLinesPlain),
   ("vlines", .verticalLines), ("vlines*", .verticalLinesPlain),
   ("hlines", .horizontalLines), ("hlines*", .horizontalLinesPlain)]

/-- A change of a filling. -/
inductive Setting (α : Type) where
  | style (s : FillingStyle)
  | color (c : Color α)
  | opacity (o : α)
  | gradStart (c : Color α)
  | gradStop (c : Color α)
  | gradAngle (a : α)
  | gradMidPoint (x : α)
  | hatchAngle (a : α)
  | hatchSep (d : α)
  | hatchWidth (w : α)
  | hatchColor (c : Color α)

/-- The key of a setting. -/
def Setting.key : Setting α → String
  | .style _ => "fillstyle"
  | .color _ => "fillcolor"
  | .opacity _ => "opacity"
  | .gradStart _ => "gradbegin"
  | .gradStop _ => "gradend"
  | .gradAngle _ => "gradangle"
  | .gradMidPoint _ => "gradmidpoint"
  | .hatchAngle _ => "hatchangle"
  | .hatchSep _ => "hatchsep"
  | .hatchWidth _ => "hatchwidth"
  | .hatchColor _ => "hatchcolor"

/-- The setting that a key and its value make. -/
def Setting.read? (r : Reading α) (p : Param) : Option (Except ResolveError (Setting α)) :=
  match p.key with
  | "fillstyle" => some ((Reading.choice styleNames p).map .style)
  | "fillcolor" => some ((r.color p).map .color)
  | "opacity" => some ((Reading.number p).map .opacity)
  | "gradbegin" => some ((r.color p).map .gradStart)
  | "gradend" => some ((r.color p).map .gradStop)
  | "gradangle" => some ((Reading.angle p).map .gradAngle)
  | "gradmidpoint" => some ((Reading.proportion p).map .gradMidPoint)
  | "hatchangle" => some ((Reading.angle p).map .hatchAngle)
  | "hatchsep" => some ((r.extent p).map .hatchSep)
  | "hatchwidth" => some ((r.extent p).map .hatchWidth)
  | "hatchcolor" => some ((r.color p).map .hatchColor)
  | _ => none

/-- The filling with a change made; an opacity out of range changes nothing. -/
def put (f : Filling α) : Setting α → Filling α
  | .style s => { f with style := s }
  | .color c => { f with color := c }
  | .opacity o => if Scalar.inUnit o then { f with opacity := o } else f
  | .gradStart c => { f with gradient := { f.gradient with start := c } }
  | .gradStop c => { f with gradient := { f.gradient with stop := c } }
  | .gradAngle a => { f with gradient := { f.gradient with angle := a } }
  | .gradMidPoint x => { f with gradient := { f.gradient with midPoint := x } }
  | .hatchAngle a => { f with hatching := { f.hatching with angle := a } }
  | .hatchSep d => { f with hatching := { f.hatching with sep := d } }
  | .hatchWidth w => { f with hatching := { f.hatching with width := w } }
  | .hatchColor c => { f with hatching := { f.hatching with color := c } }

end Filling

end PictureTree
