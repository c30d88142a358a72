/-
# `Shape.Outline` — the geometry of figures

Sixteen kinds of figures, each with its measures in model space.  An outline
knows the centre that its figure is turned about and how to be moved; the turn
itself is not part of it and never changes its coordinates.
-/
import PictureTree.Path
import PictureTree.Style.Axes
import PictureTree.Style.Dots
import PictureTree.Style.Grid
import PictureTree.Style.Plotting

open scoped PictureTree.Scalar

namespace PictureTree

/-- The kinds of figures. -/
inductive FigureKind where
  | rectangle | ellipse | rhombus | triangle | circle | arc | polygon | polyline | bezier
  | dot | grid | axes | plot | freehand | text | picture
deriving DecidableEq, Repr

/-- How the ends of an arc are joined. -/
inductive ArcStyle where
  | arc | wedge | chord
deriving DecidableEq, Repr

/-- A part of a circle; angles in radians, counter-clockwise as drawn. -/
structure Arc (α : Type) where
  center : Point α
  radius : α
  startAngle : α
  endAngle : α
  style : ArcStyle
deriving Repr

/-- A smooth path.  Every vertex has one control point; the one on its other
side is the reflection. -/
structure Bezier (α : Type) where
  points : List (Point α)
  controls : List (Point α)
  closed : Bool
deriving Repr

/-- A rectangle of grid steps: the place of its origin in model space, two
corners with the vertical axis pointing up, and the size of a step in pixels. -/
structure Lattice (α : Type) where
  position : Point α
  start : Point α
  stop : Point α
  stepX : α
  stepY : α
deriving Repr

/-- A function over an interval; the function is kept as it is written. -/
structure Plot (α : Type) where
  position : Point α
  equation : String
  low : α
  high : α
  points : Nat
  style : PlotStyle
  polar : Bool
  scaleX : α
  scaleY : α
  dotStyle : DotStyle
  dotDiameter : α
deriving Repr

/-- The geometry of a figure. -/
inductive Outline (α : Type) where
  | rectangle (position : Point α) (width height rounding : α)
  | ellipse (center : Point α) (rx ry : α)
  | rhombus (center : Point α) (width height : α)
  | triangle (position : Point α) (width height : α)
  | circle (center : Point α) (radius : α)
  | arc (a : Arc α)
  | polygon (points : List (Point α))
  | polyline (points : List (Point α))
  | bezier (b : Bezier α)
  | dot (position : Point α) (style : DotStyle) (diameter : α) (color fill : Color α)
  | grid (l : Lattice α) (style : GridStyle α)
  | axes (l : Lattice α) (style : AxesStyle α)
  | plot (p : Plot α)
  | freehand (run : PathRun α)
  | text (position : Point α) (words : String) (color : Color α)
  | picture (position : Point α) (path : String) (width height : α)
deriving Repr

variable {α : Type} [Scalar α]

namespace Arc

/-- The point of the circle at an angle, before the figure is turned. -/
def pointAt (a : Arc α) (angle : α) : Point α :=
  a.center.translate (a.radius * Scalar.cos angle) (-a.radius * Scalar.sin angle)

/-- Where the arc starts when its figure is turned. -/
def startPoint (a : Arc α) (rotation : α) : Point α :=
  (a.pointAt a.startAngle).rotateAround a.center rotation

/-- Where the arc ends when its figure is turned. -/
def endPoint (a : Arc α) (rotation : α) : Point α :=
  (a.pointAt a.endAngle).rotateAround a.center rotation

end Arc

/-- The control point of a vertex on the side where the path goes on. -/
def Bezier.secondControl? (b : Bezier α) (i : Nat) : Option (Point α) := do
  return (← b.controls[i]?).reflect (← b.points[i]?)

namespace Lattice

/-- All measures zero. -/
def empty : Lattice α := ⟨.origin, .origin, .origin, 0, 0⟩

/-- The middle of the lattice in model space. -/
def center (l : Lattice α) : Point α :=
  l.position.translate
    ((l.start.x + l.stop.x) / 2 * l.stepX)
    (-((l.start.y + l.stop.y) / 2 * l.stepY))

/-- The lattice moved. -/
def translate (l : Lattice α) (dx dy : α) : Lattice α :=
  { l with position := l.position.translate dx dy }

end Lattice

namespace Outline

/-- The kind of a figure. -/
def kind : Outline α → FigureKind
  | .rectangle .. => .rectangle
  | .ellipse .. => .ellipse
  | .rhombus .. => .rhombus
  | .triangle .. => .triangle
  | .circle .. => .circle
  | .arc _ => .arc
  | .polygon _ => .polygon
  | .polyline _ => .polyline
  | .bezier _ => .bezier
  | .dot .. => .dot
  | .grid .. => .grid
  | .axes .. => .axes
  | .plot _ => .plot
  | .freehand _ => .freehand
  | .text .. => .text
  | .picture .. => .picture

/-- The figure of a kind with all measures zero. -/
def blank : FigureKind → Outline α
  | .rectangle => .rectangle .origin 0 0 0
  | .ellipse => .ellipse .origin 0 0
  | .rhombus => .rhombus .origin 0 0
  | .triangle => .triangle .origin 0 0
  | .circle => .circle .origin 0
  | .arc => .arc ⟨.origin, 0, 0, 0, .arc⟩
  | .polygon => .polygon []
  | .polyline => .polyline []
  | .bezier => .bezier ⟨[], [], false⟩
  | .dot => .dot .origin .dot 0 .black .black
  | .grid => .grid .empty .plain
  | .axes => .axes .empty .plain
  | .plot => .plot ⟨.origin, "", 0, 0, 0, .line, false, 0, 0, .dot, 0⟩
  | .freehand => .freehand ⟨.lines, [], false⟩
  | .text => .text .origin "" .black
  | .picture => .picture .origin "" 0 0

/-- The centre that a figure is turned about. -/
def center : Outline α → Point α
  | .rectangle position width height _ => position.translate (width / 2) (height / 2)
  | .ellipse center _ _ => center
  | .rhombus center _ _ => center
  | .triangle position width height => position.translate (width / 2) (height / 2)
  | .circle center _ => center
  | .arc a => a.center
  | .polygon points => .boundsCenter points
  | .polyline points => .boundsCenter points
  | .bezier b => .boundsCenter b.points
  | .dot position .. => position
  | .grid l _ => l.center
  | .axes l _ => l.center
  | .plot p => p.position.translate ((p.low + p.high) / 2 * p.scaleX) 0
  | .freehand run => .boundsCenter run.points
  | .text position _ _ => position
  | .picture position _ _ _ => position

/-- The figure moved. -/
def translate (o : Outline α) (dx dy : α) : Outline α :=
  let move (p : Point α) := p.translate dx dy
  match o with
  | .rectangle position width height rounding => .rectangle (move position) width height rounding
  | .ellipse center rx ry => .ellipse (move center) rx ry
  | .rhombus center width height => .rhombus (move center) width height
  | .triangle position width height => .triangle (move position) width height
  | .circle center radius => .circle (move center) radius
  | .arc a => .arc { a with center := move a.center }
  | .polygon points => .polygon (points.map move)
  | .polyline points => .polyline (points.map move)
  | .bezier b => .bezier { b with points := b.points.map move, controls := b.controls.map move }
  | .dot position style diameter color fill => .dot (move position) style diameter color fill
  | .grid l style => .grid (l.translate dx dy) style
  | .axes l style => .axes (l.translate dx dy) style
  | .plot p => .plot { p with position := move p.position }
  | .freehand run => .freehand { run with points := run.points.map move }
  | .text position words color => .text (move position) words color
  | .picture position path width height => .picture (move position) path width height

end Outline

end PictureTree
