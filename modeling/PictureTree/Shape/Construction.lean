/-
# `Shape.Construction` — outlines from points and measures

The notation gives figures by corners, by a base and a height, by a run of
points with control points between them, or by corners in grid steps.  Here
these become outlines.
-/
import PictureTree.Context
import PictureTree.Shape.Outline

open scoped PictureTree.Scalar

namespace PictureTree

variable {α : Type} [Scalar α]

/-- The least width and height of a figure given by corners, in pixels. -/
def leastSize : α := 0.1

/-- The size of a figure between two coordinates. -/
def extentBetween (a b : α) : α := Scalar.max (Scalar.abs (a - b)) leastSize

/-- The rectangle between two opposite corners, given in any order. -/
def Outline.ofCorners (a b : Point α) (rounding : α) : Outline α :=
  .rectangle (a.min b) (extentBetween a.x b.x) (extentBetween a.y b.y) rounding

/-- The triangle on a base of the given width, and its rotation.  It stands on
the middle of its base; with a negative height it hangs from it, upside down. -/
def Outline.ofBase (base : Point α) (width height : α) : Outline α × α :=
  let w : α := Scalar.max (Scalar.abs width) leastSize
  let h : α := Scalar.max (Scalar.abs height) leastSize
  if Scalar.le 0 height then (.triangle (base.translate (-w / 2) (-h)) w h, 0)
  else (.triangle (base.translate (-w / 2) 0) w h, Scalar.pi)

/-- Whether a segment joins the two ends of an arc, in either direction, when
the arc is turned by `rotation`. -/
def Arc.isChord (a : Arc α) (rotation : α) (p q : Point α) (tolerance : α) : Bool :=
  let start := a.startPoint rotation
  let stop := a.endPoint rotation
  (p.near start tolerance && q.near stop tolerance) ||
    (p.near stop tolerance && q.near start tolerance)

namespace Bezier

/-- The complete triples of a list; what is left over at its end is dropped. -/
def triples {β : Type} : List β → List (β × β × β)
  | a :: b :: c :: rest => (a, b, c) :: triples rest
  | _ => []

/-- The distance below which the two ends of a path are the same point. -/
def closingDistance : α := 0.00001

/-- The path of some segments, each with the control point behind its start,
the one before its end, and its end.  A path that ends where it starts is
closed: its first vertex takes the place of its last one. -/
def ofSegments? (start : Point α) : List (Point α × Point α × Point α) → Option (Bezier α)
  | [] => none
  | (out, into, stop) :: more =>
    let segments := (out, into, stop) :: more
    let incoming := segments.map fun s => s.2.1
    let ends := segments.map fun s => s.2.2
    let last := (more.getLast?.map fun s => s.2.2).getD stop
    let lastIncoming := (more.getLast?.map fun s => s.2.1).getD into
    if Scalar.lt (last.distance start) closingDistance then
      some ⟨start :: ends.dropLast, lastIncoming :: incoming.dropLast, true⟩
    else some ⟨start :: ends, out.reflect start :: incoming, false⟩

/-- The path through a point list: a start, and three points for every
segment.  If the number of points is a multiple of three, the start is missing
and is the origin. -/
def ofPoints? (raw : List (Point α)) : Option (Bezier α) :=
  if raw.length % 3 = 0 then ofSegments? .origin (triples raw)
  else match raw with
    | [] => none
    | start :: rest => ofSegments? start (triples rest)

end Bezier

namespace Context

/-- A number that is finite. -/
def checked? (x : α) : Option α := (finite x).toOption

/-- The point that a coordinate stands for. -/
def point? (c : Context α) (coord : Coord) : Option (Point α) := (c.units.point? coord).toOption

/-- The points that coordinates stand for. -/
def points? (c : Context α) (coords : List Coord) : Option (List (Point α)) :=
  coords.mapM c.point?

/-- The first coordinate's point, or the origin if there is none. -/
def firstPoint? (c : Context α) : List Coord → Option (Point α)
  | [] => some .origin
  | coord :: _ => c.point? coord

/-- A coordinate in grid steps, if it is finite. -/
def gridPoint? (c : Context α) (coord : Coord) : Option (Point α) :=
  let p := c.units.gridPoint coord
  (Point.ofCoords? p.x p.y).toOption

end Context

namespace Lattice

/-- Origin, start and end of a lattice from up to three corners: without any it
covers the picture, a single one is its end, and two are its start, which is
also its origin, and its end. -/
def span (bounds : Point α × Point α) : List (Point α) → Point α × Point α × Point α
  | [] => (.origin, bounds.1, bounds.2)
  | [stop] => (.origin, .origin, stop)
  | [start, stop] => (start, start, stop)
  | origin :: start :: stop :: _ => (origin, start, stop)

/-- The lattice of some coordinates in a context. -/
def ofCoords? (c : Context α) (coords : List Coord) : Option (Lattice α) := do
  let (origin, start, stop) := span c.bounds (← coords.mapM c.gridPoint?)
  let stepX ← Context.checked? c.units.stepX
  let stepY ← Context.checked? c.units.stepY
  let position ← (Point.ofCoords? (origin.x * stepX) (-origin.y * stepY)).toOption
  let relative (p : Point α) : Option (Point α) :=
    (Point.ofCoords? (p.x - origin.x) (p.y - origin.y)).toOption
  return ⟨position, ← relative start, ← relative stop, stepX, stepY⟩

end Lattice

end PictureTree
