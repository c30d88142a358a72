/-
# `Shape` — figures and groups of figures

A shape is a figure or a group of shapes painted as a unit.  Moving and turning
a group moves and turns every figure in it.
-/
import PictureTree.Grouping
import PictureTree.Shape.Figure

open scoped PictureTree.Scalar

namespace PictureTree

/-- A figure, or a group of shapes. -/
abbrev Shape (α : Type) := Grouping (Figure α)

namespace Shape

variable {α : Type} [Scalar α]

/-- The shape moved. -/
def translate (s : Shape α) (dx dy : α) : Shape α := s.map fun f => f.translate dx dy

/-- The shape turned about a centre. -/
def rotate (s : Shape α) (center : Point α) (angle : α) : Shape α :=
  s.map fun f => f.rotate center angle

mutual

/-- The centre of a figure; for a group, that of the centres in it. -/
def center : Shape α → Point α
  | .one f => f.center
  | .group gs => .boundsCenter (centers gs)

/-- The centres of some shapes. -/
def centers : List (Shape α) → List (Point α)
  | [] => []
  | g :: gs => center g :: centers gs

end

/-- The angle that a figure is turned by; a group has none of its own. -/
def rotation : Shape α → α
  | .one f => f.rotation
  | .group _ => 0

/-- The figure turned by another angle; a group as it is. -/
def setRotation (s : Shape α) (angle : α) : Shape α :=
  match s with
  | .one f => .one { f with rotation := angle }
  | .group gs => .group gs

end Shape

end PictureTree
