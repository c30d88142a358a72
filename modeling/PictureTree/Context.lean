/-
# `Context` — everything a scope hands down

A drawing context is a value: a scope starts with a copy of the context around
it and drops the copy when it ends, so nothing set inside a scope reaches
outside.  Only the text collected in a scope is not handed down.

Lengths are in pixels and angles in radians unless a comment says otherwise.
-/
import PictureTree.Setting

open scoped PictureTree.Scalar

namespace PictureTree

/-- The inheritable drawing parameters of a scope. -/
structure Context (α : Type) where
  units : Units α
  stroke : Stroke α
  /-- The rounding of frame corners, between zero and one. -/
  frameArc : α
  filling : Filling α
  double : DoubleLine α
  shadow : Shadow α
  arrows : Arrows α
  dots : Dots α
  showPoints : Bool
  grid : GridStyle α
  axes : AxesStyle α
  plotting : Plotting
  /-- The rotation that every shape is given. -/
  shapeAngle : α
  /-- The angles of the placed scopes around, added up, in degrees. -/
  placeAngle : α
  /-- The corners of the picture around, in grid steps. -/
  bounds : Point α × Point α
  /-- The words collected in the scope. -/
  text : List String
  /-- The colour chosen for text. -/
  chosenColor : Option (Color α)

namespace Context

variable {α : Type} [Scalar α]

/-- Printer's points in pixels. -/
def points (ppc n : α) : α := n * pointLength * ppc

/-- The context of a document, at a number of pixels per centimetre. -/
def initial (ppc : α) : Context α where
  units := .ofPpc ppc
  stroke := {
    color := .black
    thickness := points ppc 0.8
    style := .solid
    dashBlack := points ppc 5
    dashWhite := points ppc 3
    dotSep := points ppc 3
    border := .into
    opacity := 1 }
  frameArc := 0
  filling := {
    style := .none
    color := .white
    opacity := 1
    gradient := {
      start := .rgb 0 0.1 0.95
      stop := .rgb 0 1 0.7
      angle := Scalar.toRadians 0
      midPoint := 0.9 }
    hatching := {
      angle := Scalar.toRadians 45
      sep := points ppc 4
      width := points ppc 0.8
      color := .black } }
  double := ⟨false, .white, none⟩
  shadow := ⟨false, .gray 0.25, Scalar.toRadians (-45), points ppc 3⟩
  arrows := {
    left := .none
    right := .none
    measures := {
      size := (points ppc 1.5, 2)
      length := 1.4
      inset := 0.4
      bar := (points ppc 2, 5)
      bracket := 0.15
      roundBracket := 0.15
      dot := (points ppc 2, 2) } }
  dots := ⟨.dot, (points ppc 2, 2), 1, 0⟩
  showPoints := false
  grid := {
    color := .black
    width := points ppc 0.8
    dots := 0
    labelSize := points ppc 10
    labelColor := .black
    subgridDiv := 5
    subgridWidth := points ppc 0.4
    subgridColor := .gray 0.5
    subgridDots := 0 }
  axes := {
    figure := .axes
    ticks := .all
    ticksStyle := .full
    ticksSize := points ppc 3
    labels := .all
    showOrigin := true
    origin := (0, 0)
    increment := (1, 1)
    distance := (0, 0) }
  plotting := ⟨.line, 50, false⟩
  shapeAngle := 0
  placeAngle := 0
  bounds := (⟨0, 0⟩, ⟨10, 10⟩)
  text := []
  chosenColor := none

/-- The context that a scope inside starts with. -/
def child (c : Context α) : Context α := { c with text := [] }

/-- The context with a change made. -/
def put (c : Context α) : Setting α → Context α
  | .scale s => { c with units := c.units.put s }
  | .stroke s => { c with stroke := c.stroke.put s }
  | .frameArc x => { c with frameArc := x }
  | .filling s => { c with filling := c.filling.put s }
  | .double s => { c with double := c.double.put s }
  | .shadow s => { c with shadow := c.shadow.put s }
  | .arrows s => { c with arrows := c.arrows.put s }
  | .dots s => { c with dots := c.dots.put s }
  | .showPoints b => { c with showPoints := b }
  | .grid s => { c with grid := c.grid.put s }
  | .axes s => { c with axes := c.axes.put s }
  | .plotting s => { c with plotting := c.plotting.put s }
  | .shapeAngle radians => { c with shapeAngle := radians }

/-- The context with one parameter set. -/
def set (c : Context α) (palette : Palette α) (p : Param) : Except ResolveError (Context α) :=
  (Setting.read ⟨c.units, palette⟩ p).map c.put

/-- The context with one parameter set, or as it was if that fails. -/
def trySet (c : Context α) (palette : Palette α) (p : Param) : Context α :=
  match c.set palette p with
  | .ok c' => c'
  | .error _ => c

/-- The context with parameters set one after the other; those that fail
change nothing. -/
def setAll (c : Context α) (palette : Palette α) (ps : List Param) : Context α :=
  ps.foldl (fun c p => c.trySet palette p) c

/-- The errors met while parameters are set one after the other. -/
def errors (c : Context α) (palette : Palette α) : List Param → List ResolveError
  | [] => []
  | p :: ps =>
    match c.set palette p with
    | .ok c' => errors c' palette ps
    | .error e => e :: errors c palette ps

/-- The double border of shapes. -/
def doubleBorder (c : Context α) : DoubleBorder α := c.double.border c.stroke.thickness

/-- The diameter of dots. -/
def dotDiameter (c : Context α) : α := c.dots.diameter c.stroke.thickness

/-- The colour of text: the chosen one, or that of lines. -/
def textColor (c : Context α) : Color α := c.chosenColor.getD c.stroke.color

/-- The context with a word collected. -/
def write (c : Context α) (word : String) : Context α := { c with text := c.text ++ [word] }

end Context

end PictureTree
