/-
# `Canvas.Scope` — one open scope

A scope has a drawing context, the shapes drawn in it so far, and a transform
that its group is given when it ends.  A custom path has a path as well, which
its path commands draw.

A command changes nothing but the scope it stands in, and of that only what
`Scope.obey` says; the palette is looked at and not changed.
-/
import PictureTree.Shape
import PictureTree.Shape.Drawing
import PictureTree.Shape.Inclusion

open scoped PictureTree.Scalar

namespace PictureTree

/-- What an import depends on beside the document. -/
structure Options (α : Type) where
  /-- Pixels per centimetre. -/
  ppc : α
  /-- How far the ends of a line may be from those of an arc that it closes, in pixels. -/
  chordTolerance : α
  /-- The size in pixels of the picture file of a name, if it can be read. -/
  pictureSize? : String → Option (Nat × Nat)

/-- The options that count when none are given: no picture can be read. -/
def Options.standard {α : Type} [Scalar α] : Options α := ⟨50, 0.5, fun _ => none⟩

/-- What becomes of the group of a scope when it ends. -/
inductive Exit (α : Type) where
  | keep
  /-- Turned about the origin, then moved. -/
  | place (position : Point α) (angle : α)
  /-- Turned about a centre. -/
  | turn (center : Point α) (angle : α)

/-- An open scope. -/
structure Scope (α : Type) where
  context : Context α
  /-- The shapes drawn so far, newest first. -/
  drawn : List (Shape α)
  exit : Exit α
  /-- The path of a custom path. -/
  path : Option (Path α)
  /-- Whether the custom path is starred. -/
  starred : Bool

variable {α : Type} [Scalar α]

/-- The shape as it leaves a scope. -/
def Exit.apply (e : Exit α) (s : Shape α) : Shape α :=
  match e with
  | .keep => s
  | .place position angle => Shape.translate (Shape.rotate s .origin angle) position.x position.y
  | .turn center angle => Shape.rotate s center angle

/-- The arc `f` as a chord, if `g` is a line that joins its ends. -/
def Figure.chord? (f g : Figure α) (tolerance : α) : Option (Figure α) :=
  match f.outline, g.outline with
  | .arc a, .polyline [p, q] =>
    if a.style = .arc && a.isChord f.rotation p q tolerance then
      some { f with outline := .arc { a with style := .chord } }
    else none
  | _, _ => none

/-- The shapes, newest first, with a further one drawn.  A line that closes the
arc drawn just before it turns the arc into a chord and is not kept. -/
def draw (tolerance : α) (drawn : List (Shape α)) (s : Shape α) : List (Shape α) :=
  match drawn, s with
  | .one f :: rest, .one g =>
    match f.chord? g tolerance with
    | some chord => .one chord :: rest
    | none => s :: drawn
  | _, _ => s :: drawn

namespace Scope

/-- A scope with a context, and nothing drawn. -/
def ofContext (c : Context α) : Scope α := ⟨c, [], .keep, none, false⟩

/-- The scope with a further shape drawn. -/
def emit (o : Options α) (s : Scope α) (shape : Shape α) : Scope α :=
  { s with drawn := PictureTree.draw o.chordTolerance s.drawn shape }

/-- The scope with some figures drawn. -/
def emitAll (o : Options α) (s : Scope α) (fs : List (Figure α)) : Scope α :=
  fs.foldl (fun s f => s.emit o (.one f)) s

/-- The scope with a word collected, if there is one. -/
def write (s : Scope α) (word : String) : Scope α :=
  if word.isEmpty then s else { s with context := s.context.write word }

/-- The scope with a colour chosen for its text. -/
def choose (s : Scope α) (c : Color α) : Scope α :=
  { s with context := { s.context with chosenColor := some c } }

/-! ## Beginning -/

/-- The corners of a picture: those of the picture around, if none are given
or one cannot be used; a single one lies opposite the origin. -/
def pictureBounds (c : Context α) (corners : List Coord) : Point α × Point α :=
  match corners.mapM c.gridPoint? with
  | none | some [] => c.bounds
  | some [stop] => (.origin, stop)
  | some (start :: stop :: _) => (start, stop)

/-- The degrees that a placed scope is turned by; an absolute angle is measured
from the page. -/
def placeDegrees (outer : Context α) : Option AngleSpec → α
  | none => 0
  | some a =>
    let degrees : α := Scalar.ofNumeral a.degrees
    if a.absolute then degrees - outer.placeAngle else degrees

/-- The scope that a head begins in a context. -/
def begin (palette : Palette α) (outer : Context α) : ScopeHead → Scope α
  | .picture _ params corners =>
    let c := outer.child.setAll palette params
    ofContext { c with bounds := pictureBounds c corners }
  | .block => ofContext outer.child
  | .custom starred params =>
    { ofContext (outer.child.setAll palette params) with path := some .empty, starred := starred }
  | .place _ _ angle position =>
    let degrees := placeDegrees outer angle
    let c := { outer.child with placeAngle := outer.placeAngle + degrees }
    { ofContext c with
      exit := .place ((outer.point? position).getD .origin) (Scalar.rotation degrees) }
  | .turn params center angle =>
    let c := outer.child.setAll palette params
    { ofContext c with
      exit := .turn ((c.point? center).getD .origin) (Scalar.rotation angle.value) }

/-! ## Commands -/

/-- The path with a path command drawn, if all its points can be used. -/
def trace? (c : Context α) (path : Path α) : PathCommand → Option (Path α)
  | .moveTo p => (c.point? p).map path.moveTo
  | .lineTo relative ps => (c.points? ps).map fun qs =>
    qs.foldl (fun path q => path.lineTo (if relative then path.cursor + q else q)) path
  | .curveTo relative _ _ p => (c.point? p).map fun q =>
    path.curveTo (if relative then path.cursor + q else q)
  | .close => some path.close

/-- The colour of a specification. -/
def color? (palette : Palette α) (spec : ColorSpec) : Option (Color α) :=
  match spec.model with
  | some model => (Color.ofModel? model spec.values).toOption
  | none => (palette.resolve spec.values).toOption

/-- The scope with the colour of a specification chosen, if there is one. -/
def chooseSpec (palette : Palette α) (s : Scope α) (spec : ColorSpec) : Scope α :=
  match color? palette spec with
  | some c => s.choose c
  | none => s

/-- The figure of an included picture. -/
def picture? (o : Options α) (c : Context α) (params : List Param) (path : String) :
    Option (Figure α) := do
  Inclusion.figure? c.units params path (← o.pictureSize? path)

/-- The scope after a command. -/
def obey (o : Options α) (palette : Palette α) (s : Scope α) : Command → Scope α
  | .set params => { s with context := s.context.setAll palette params }
  | .shape command arguments =>
    s.emitAll o ((command.figures? s.context palette arguments).getD [])
  | .framedBox _ text => s.write text
  | .defineColor .. | .newColor .. => s
  | .useColor spec => s.chooseSpec palette spec
  | .textColor spec text => (s.chooseSpec palette spec).write text
  | .includePicture params path => s.emitAll o (picture? o s.context params path).toList
  | .path command =>
    { s with path := s.path.map fun path => (trace? s.context path command).getD path }
  | .text word => s.write word

/-! ## Ending -/

/-- The figure of a merged run of a custom path. -/
def runFigure (s : Scope α) (run : PathRun α) : Figure α :=
  ((Figure.ofOutline (.freehand run) 0).dress s.context s.starred).turnBy s.context

/-- The scope with the runs of its path drawn, and the path gone. -/
def flush (o : Options α) (s : Scope α) : Scope α :=
  match s.path with
  | none => s
  | some path => { s.emitAll o (path.runs.map s.runFigure) with path := none }

/-- The text collected in a scope, as one figure. -/
def textFigure? (s : Scope α) : Option (Figure α) :=
  if s.context.text.isEmpty then none
  else some (.ofOutline (.text .origin (" ".intercalate s.context.text) s.context.textColor) 0)

/-- Everything in a scope, in painting order; the text comes last. -/
def shapes (s : Scope α) : List (Shape α) :=
  s.drawn.reverse ++ s.textFigure?.toList.map .one

/-- The group that a scope leaves behind. -/
def leave (s : Scope α) : Shape α := s.exit.apply (.group s.shapes)

end Scope

end PictureTree
