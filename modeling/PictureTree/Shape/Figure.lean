/-
# `Shape.Figure` — figures with their styles

A figure is an outline, the angle it is turned by about its centre, and the
style records that figures of its kind carry.  Which those are is a property of
the kind; a record that a kind does not carry is absent.
-/
import PictureTree.Context
import PictureTree.Shape.Outline

open scoped PictureTree.Scalar

namespace PictureTree

namespace FigureKind

/-- Figures drawn with lines. -/
def hasStroke : FigureKind → Bool
  | .rectangle | .ellipse | .rhombus | .triangle | .circle | .arc | .polygon | .polyline
  | .bezier | .axes | .plot | .freehand => true
  | .dot | .grid | .text | .picture => false

/-- Figures that enclose an area, and with it may cast a shadow. -/
def hasFilling : FigureKind → Bool
  | .axes => false
  | k => k.hasStroke

/-- Figures with a border that can be doubled. -/
def hasDoubleBorder : FigureKind → Bool
  | .plot => false
  | k => k.hasFilling

/-- Figures with two ends. -/
def hasArrows : FigureKind → Bool
  | .arc | .polyline | .bezier | .axes => true
  | _ => false

/-- Figures through points that can be marked. -/
def hasPoints : FigureKind → Bool
  | .polygon | .polyline | .bezier | .freehand => true
  | _ => false

end FigureKind

/-- The style records of a figure. -/
structure Paint (α : Type) where
  stroke : Option (Stroke α)
  filling : Option (Filling α)
  shadow : Option (Shadow α)
  doubleBorder : Option (DoubleBorder α)
  arrows : Option (Arrows α)
  showPoints : Option Bool
deriving Repr

/-- A figure, turned about its centre. -/
structure Figure (α : Type) where
  outline : Outline α
  /-- In radians, clockwise on screen. -/
  rotation : α
  paint : Paint α
deriving Repr

variable {α : Type} [Scalar α]

namespace Paint

/-- The records of a kind. -/
def ofKind (k : FigureKind) (stroke : Stroke α) (filling : Filling α) (shadow : Shadow α)
    (doubleBorder : DoubleBorder α) (arrows : Arrows α) (showPoints : Bool) : Paint α where
  stroke := if k.hasStroke then some stroke else none
  filling := if k.hasFilling then some filling else none
  shadow := if k.hasFilling then some shadow else none
  doubleBorder := if k.hasDoubleBorder then some doubleBorder else none
  arrows := if k.hasArrows then some arrows else none
  showPoints := if k.hasPoints then some showPoints else none

/-- The records of a kind before any context is applied. -/
def plain (k : FigureKind) : Paint α := ofKind k .plain .empty .absent .absent .absent false

/-- The records of a kind as a context has them. -/
def ofContext (k : FigureKind) (c : Context α) : Paint α :=
  ofKind k c.stroke c.filling c.shadow c.doubleBorder c.arrows c.showPoints

/-- The records of a starred command: solid lines, filled with their colour,
without shadow and double border. -/
def starred (p : Paint α) : Paint α where
  stroke := p.stroke.map fun s => { s with border := .into, style := .solid }
  filling := p.filling.map fun f =>
    { f with style := .plain, color := (p.stroke.map Stroke.color).getD f.color }
  shadow := p.shadow.map fun s => { s with enabled := false }
  doubleBorder := p.doubleBorder.map fun d => { d with enabled := false }
  arrows := p.arrows
  showPoints := p.showPoints

end Paint

namespace Figure

/-- The figure of a kind with all measures zero. -/
def blank (k : FigureKind) : Figure α := ⟨.blank k, 0, .plain k⟩

/-- The figure without any context applied. -/
def ofOutline (o : Outline α) (rotation : α) : Figure α := ⟨o, rotation, .plain o.kind⟩

/-- The centre that the figure is turned about. -/
def center (f : Figure α) : Point α := f.outline.center

/-- The figure moved. -/
def translate (f : Figure α) (dx dy : α) : Figure α :=
  { f with outline := f.outline.translate dx dy }

/-- The figure turned about a centre: its own centre moves, and its angle grows. -/
def rotate (f : Figure α) (center : Point α) (angle : α) : Figure α :=
  let old := f.center
  let new := old.rotateAround center angle
  { f.translate (new.x - old.x) (new.y - old.y) with rotation := f.rotation + angle }

/-- The figure with the styles of a context, those of a starred command if
`starred`. -/
def dress (f : Figure α) (c : Context α) (starred : Bool) : Figure α :=
  let paint := Paint.ofContext f.outline.kind c
  { f with paint := if starred then paint.starred else paint }

/-- The figure turned about its own centre by the angle of a context. -/
def turnBy (f : Figure α) (c : Context α) : Figure α :=
  if Scalar.eq c.shapeAngle 0 then f else f.rotate f.center c.shapeAngle

/-- The arc of the figure taken the other way round: both its angles and its
line ends are exchanged. -/
def reversed (f : Figure α) : Figure α :=
  match f.outline with
  | .arc a => { f with
      outline := .arc { a with startAngle := a.endAngle, endAngle := a.startAngle }
      paint := { f.paint with arrows := f.paint.arrows.map Arrows.swap } }
  | _ => f

end Figure

end PictureTree
