/-
# `Style.Grid` — the lines and labels of grids
-/
import PictureTree.Style.Reading

open scoped PictureTree.Scalar

namespace PictureTree

/-- How a grid is drawn; a count of dots that is zero means solid lines. -/
structure GridStyle (α : Type) where
  color : Color α
  width : α
  dots : Nat
  labelSize : α
  labelColor : Color α
  subgridDiv : Nat
  subgridWidth : α
  subgridColor : Color α
  subgridDots : Nat
deriving Repr

namespace GridStyle

variable {α : Type} [Scalar α]

/-- A grid with all measures zero. -/
def plain : GridStyle α := ⟨.black, 0, 0, 0, .black, 0, 0, .black, 0⟩

/-- A change of a grid style. -/
inductive Setting (α : Type) where
  | color (c : Color α)
  | width (w : α)
  | dots (n : Nat)
  | labelSize (x : α)
  | labelColor (c : Color α)
  | subgridDiv (n : Nat)
  | subgridWidth (w : α)
  | subgridColor (c : Color α)
  | subgridDots (n : Nat)

/-- The key of a setting. -/
def Setting.key : Setting α → String
  | .color _ => "gridcolor"
  | .width _ => "gridwidth"
  | .dots _ => "griddots"
  | .labelSize _ => "gridlabels"
  | .labelColor _ => "gridlabelcolor"
  | .subgridDiv _ => "subgriddiv"
  | .subgridWidth _ => "subgridwidth"
  | .subgridColor _ => "subgridcolor"
  | .subgridDots _ => "subgriddots"

/-- The setting that a key and its value make. -/
def Setting.read? (r : Reading α) (p : Param) : Option (Except ResolveError (Setting α)) :=
  match p.key with
  | "gridcolor" => some ((r.color p).map .color)
  | "gridwidth" => some ((r.extent p).map .width)
  | "griddots" => some ((Reading.count p).map .dots)
  | "gridlabels" => some ((r.extent p).map .labelSize)
  | "gridlabelcolor" => some ((r.color p).map .labelColor)
  | "subgriddiv" => some ((Reading.count p).map .subgridDiv)
  | "subgridwidth" => some ((r.extent p).map .subgridWidth)
  | "subgridcolor" => some ((r.color p).map .subgridColor)
  | "subgriddots" => some ((Reading.count p).map .subgridDots)
  | _ => none

/-- The grid style with a change made. -/
def put (g : GridStyle α) : Setting α → GridStyle α
  | .color c => { g with color := c }
  | .width w => { g with width := w }
  | .dots n => { g with dots := n }
  | .labelSize x => { g with labelSize := x }
  | .labelColor c => { g with labelColor := c }
  | .subgridDiv n => { g with subgridDiv := n }
  | .subgridWidth w => { g with subgridWidth := w }
  | .subgridColor c => { g with subgridColor := c }
  | .subgridDots n => { g with subgridDots := n }

end GridStyle

end PictureTree
