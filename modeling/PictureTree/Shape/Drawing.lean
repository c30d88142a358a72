/-
# `Shape.Drawing` — what a shape command draws

A shape command draws some figures in a context, or nothing at all if one of
its arguments is missing, one of its measures is not finite, or it has too few
points.  The parameters and arrows of a command count for that command only.
-/
import PictureTree.Shape.Construction
import PictureTree.Shape.Figure

open scoped PictureTree.Scalar

namespace PictureTree

variable {α : Type} [Scalar α]

/-- An outline with its rotation. -/
abbrev Drawn (α : Type) := List (Outline α × α)

namespace ShapeCommand

/-- A single figure that is not turned. -/
def only (o : Outline α) : Drawn α := [(o, 0)]

/-- The center and the size of a figure: the last of two coordinates is the
size, and a single coordinate is a size at the origin. -/
def centerAndSize : List Coord → Coord × Coord
  | [] => (.origin, .origin)
  | [size] => (.origin, size)
  | center :: size :: _ => (center, size)

/-- The two measures of a size; a polar one has its radius for both. -/
def measures : Coord → Quantity × Quantity
  | .cartesian x y => (x, y)
  | .polar radius _ => (radius, radius)

/-- The radius of a circle, its first argument. -/
def radius? (c : Context α) (a : Arguments) : Option α := do
  Context.checked? (Scalar.abs (c.units.length (← a.numbers[0]?)))

/-- The rectangle of one corner or two. -/
def frame? (c : Context α) (a : Arguments) : Option (Drawn α) :=
  match a.coords with
  | [] => none
  | [corner] => do return only (.ofCorners .origin (← c.point? corner) c.frameArc)
  | p :: q :: _ => do return only (.ofCorners (← c.point? p) (← c.point? q) c.frameArc)

/-- The rhombus of half its width and height. -/
def diamond? (c : Context α) (a : Arguments) : Option (Drawn α) := do
  let (center, size) := centerAndSize a.coords
  let (w, h) := measures size
  return only (.rhombus (← c.point? center)
    (← Context.checked? (2 * Scalar.abs (c.units.x w)))
    (← Context.checked? (2 * Scalar.abs (c.units.y h))))

/-- The triangle of a base and a height. -/
def triangle? (c : Context α) (a : Arguments) : Option (Drawn α) := do
  let (base, size) := centerAndSize a.coords
  let (w, h) := measures size
  return [Outline.ofBase (← c.point? base) (← Context.checked? (c.units.x w))
    (← Context.checked? (c.units.y h))]

/-- The ellipse of its two radii. -/
def ellipse? (c : Context α) (a : Arguments) : Option (Drawn α) := do
  let (center, size) := centerAndSize a.coords
  let (rx, ry) := measures size
  return only (.ellipse (← c.point? center)
    (← Context.checked? (Scalar.abs (c.units.x rx)))
    (← Context.checked? (Scalar.abs (c.units.y ry))))

/-- The circle of a radius. -/
def circle? (c : Context α) (a : Arguments) : Option (Drawn α) := do
  return only (.circle (← c.firstPoint? a.coords) (← radius? c a))

/-- The arc of a radius and two angles. -/
def arc? (c : Context α) (a : Arguments) (style : ArcStyle) : Option (Drawn α) := do
  let angle? (i : Nat) : Option α := (a.numbers[i]?).map fun q => Scalar.toRadians q.value
  return only (.arc ⟨← c.firstPoint? a.coords, ← radius? c a, ← angle? 1, ← angle? 2, style⟩)

/-- The line through some points; a single one is reached from the origin. -/
def line? (c : Context α) (a : Arguments) : Option (Drawn α) := do
  match ← c.points? a.coords with
  | [p] => return only (.polyline [.origin, p])
  | ps => return only (.polyline ps)

/-- The line through exactly the given points. -/
def segment? (c : Context α) (a : Arguments) : Option (Drawn α) := do
  return only (.polyline (← c.points? a.coords))

/-- The polygon of some points; with two of them the origin is the third. -/
def polygon? (c : Context α) (a : Arguments) : Option (Drawn α) := do
  match ← c.points? a.coords with
  | [] | [_] => none
  | [p, q] => return only (.polygon [.origin, p, q])
  | ps => return only (.polygon ps)

/-- The smooth path of some points and control points. -/
def bezier? (c : Context α) (a : Arguments) : Option (Drawn α) := do
  return only (.bezier (← Bezier.ofPoints? (← c.points? a.coords)))

/-- The mark of a point, with its rotation. -/
def mark (c : Context α) (p : Point α) : Outline α × α :=
  (.dot p c.dots.style c.dotDiameter c.stroke.color c.filling.color,
    Scalar.rotation (Scalar.toDegrees c.dots.angle))

/-- The mark of one point. -/
def dot? (c : Context α) (a : Arguments) : Option (Drawn α) := do
  return [mark c (← c.firstPoint? a.coords)]

/-- The marks of all points. -/
def dots? (c : Context α) (a : Arguments) : Option (Drawn α) := do
  return (← c.points? a.coords).map (mark c)

/-- The grid between two corners. -/
def grid? (c : Context α) (a : Arguments) : Option (Drawn α) := do
  return only (.grid (← Lattice.ofCoords? c a.coords) c.grid)

/-- The axes between two corners. -/
def axes? (c : Context α) (a : Arguments) : Option (Drawn α) := do
  return only (.axes (← Lattice.ofCoords? c a.coords) c.axes)

/-- The plot of a function between two arguments, in any order. -/
def plot? (c : Context α) (a : Arguments) (function : String) : Option (Drawn α) := do
  let x ← Context.checked? (c.units.gridX (← a.numbers[0]?))
  let y ← Context.checked? (c.units.gridX (← a.numbers[1]?))
  return only (.plot {
    position := .origin
    equation := function
    low := Scalar.min x y
    high := Scalar.max x y
    points := c.plotting.points
    style := c.plotting.style
    polar := c.plotting.polar
    scaleX := ← Context.checked? c.units.stepX
    scaleY := ← Context.checked? c.units.stepY
    dotStyle := c.dots.style
    dotDiameter := c.dotDiameter })

/-- The points that a curve passes: without the first and the last one, if
those only steer it. -/
def passed (kind : CurveKind) (ps : List (Point α)) : List (Point α) :=
  match kind, ps with
  | .ends, _ :: q :: rest => (q :: rest).dropLast
  | _, ps => ps

/-- The curve through some points, two at least. -/
def curve? (c : Context α) (a : Arguments) (kind : CurveKind) : Option (Drawn α) := do
  match passed kind (← c.points? a.coords) with
  | [] | [_] => none
  | ps => return only (.freehand ⟨.curves, ps, kind ≠ .closed⟩)

/-- The outlines that a command draws. -/
def outlines? (c : Context α) (a : Arguments) : ShapeCommand → Option (Drawn α)
  | .frame => frame? c a
  | .diamond => diamond? c a
  | .triangle => triangle? c a
  | .ellipse => ellipse? c a
  | .circle => circle? c a
  | .disk => circle? c a
  | .wedge => arc? c a .wedge
  | .arc _ => arc? c a .arc
  | .line => line? c a
  | .segment => segment? c a
  | .polygon => polygon? c a
  | .bezier => bezier? c a
  | .dot => dot? c a
  | .dots => dots? c a
  | .grid => grid? c a
  | .axes => axes? c a
  | .plot function => plot? c a function
  | .curve kind => curve? c a kind

/-- Whether a command draws filled figures: disks always, plain segments,
grids and axes never, and the others if they are starred. -/
def isStarred (a : Arguments) : ShapeCommand → Bool
  | .disk => true
  | .segment | .grid | .axes => false
  | _ => a.starred

/-- An outline as a figure in the styles of a context. -/
def finish (command : ShapeCommand) (c : Context α) (a : Arguments) (o : Outline α × α) :
    Figure α :=
  let dressed := (Figure.ofOutline o.1 o.2).dress c (command.isStarred a)
  let directed := match command with
    | .arc true => dressed.reversed
    | _ => dressed
  directed.turnBy c

/-- The context of one command: that of its scope, with the parameters and
the arrows of the command. -/
def context (c : Context α) (palette : Palette α) (a : Arguments) : Context α :=
  let c := c.setAll palette a.params
  { c with arrows := c.arrows.withSpec a.arrows }

/-- The figures that a command draws in a scope. -/
def figures? (command : ShapeCommand) (c : Context α) (palette : Palette α) (a : Arguments) :
    Option (List (Figure α)) :=
  let c := context c palette a
  (command.outlines? c a).map fun os => os.map (command.finish c a)

end ShapeCommand

end PictureTree
