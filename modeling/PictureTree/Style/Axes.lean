/-
# `Style.Axes` — axes, ticks and labels
-/
import PictureTree.Style.Reading

open scoped PictureTree.Scalar

namespace PictureTree

/-- What axes look like. -/
inductive AxesFigure where
  | axes | frame | none
deriving DecidableEq, Repr

/-- Which axes something is shown on. -/
inductive AxesSelection where
  | all | x | y | none
deriving DecidableEq, Repr

/-- On which side of an axis its ticks are. -/
inductive TicksStyle where
  | full | top | bottom
deriving DecidableEq, Repr

/-- How axes are drawn.  The pairs are for the two axes: the labels at the
origin, the steps between labels, and their distances, where zero means that
the step counts. -/
structure AxesStyle (α : Type) where
  figure : AxesFigure
  ticks : AxesSelection
  ticksStyle : TicksStyle
  ticksSize : α
  labels : AxesSelection
  showOrigin : Bool
  origin : α × α
  increment : α × α
  distance : α × α
deriving Repr

namespace AxesStyle

variable {α : Type} [Scalar α]

/-- Axes with all measures zero. -/
def plain : AxesStyle α := ⟨.axes, .all, .full, 0, .all, false, (0, 0), (0, 0), (0, 0)⟩

/-- The names of figures. -/
def figureNames : List (String × AxesFigure) :=
  [("axes", .axes), ("frame", .frame), ("none", .none)]

/-- The names of selections. -/
def selectionNames : List (String × AxesSelection) :=
  [("all", .all), ("x", .x), ("y", .y), ("none", .none)]

/-- The names of tick styles. -/
def ticksNames : List (String × TicksStyle) :=
  [("full", .full), ("top", .top), ("bottom", .bottom)]

/-- A change of axes. -/
inductive Setting (α : Type) where
  | figure (f : AxesFigure)
  | ticks (s : AxesSelection)
  | labels (s : AxesSelection)
  | ticksStyle (t : TicksStyle)
  | ticksSize (d : α)
  | showOrigin (b : Bool)
  | originX (x : α)
  | originY (y : α)
  | incrementX (x : α)
  | incrementY (y : α)
  | distanceX (x : α)
  | distanceY (y : α)

/-- The key of a setting. -/
def Setting.key : Setting α → String
  | .figure _ => "axesstyle"
  | .ticks _ => "ticks"
  | .labels _ => "labels"
  | .ticksStyle _ => "tickstyle"
  | .ticksSize _ => "ticksize"
  | .showOrigin _ => "showorigin"
  | .originX _ => "Ox"
  | .originY _ => "Oy"
  | .incrementX _ => "Dx"
  | .incrementY _ => "Dy"
  | .distanceX _ => "dx"
  | .distanceY _ => "dy"

/-- The setting that a key and its value make. -/
def Setting.read? (r : Reading α) (p : Param) : Option (Except ResolveError (Setting α)) :=
  match p.key with
  | "axesstyle" => some ((Reading.choice figureNames p).map .figure)
  | "ticks" => some ((Reading.choice selectionNames p).map .ticks)
  | "labels" => some ((Reading.choice selectionNames p).map .labels)
  | "tickstyle" => some ((Reading.choice ticksNames p).map .ticksStyle)
  | "ticksize" => some ((r.length p).map .ticksSize)
  | "showorigin" => some ((Reading.flag p).map .showOrigin)
  | "Ox" => some ((Reading.number p).map .originX)
  | "Oy" => some ((Reading.number p).map .originY)
  | "Dx" => some ((Reading.number p).map .incrementX)
  | "Dy" => some ((Reading.number p).map .incrementY)
  | "dx" => some ((Reading.number p).map .distanceX)
  | "dy" => some ((Reading.number p).map .distanceY)
  | _ => none

/-- The axes with a change made. -/
def put (a : AxesStyle α) : Setting α → AxesStyle α
  | .figure f => { a with figure := f }
  | .ticks s => { a with ticks := s }
  | .labels s => { a with labels := s }
  | .ticksStyle t => { a with ticksStyle := t }
  | .ticksSize d => { a with ticksSize := d }
  | .showOrigin b => { a with showOrigin := b }
  | .originX x => { a with origin := (x, a.origin.2) }
  | .originY y => { a with origin := (a.origin.1, y) }
  | .incrementX x => { a with increment := (x, a.increment.2) }
  | .incrementY y => { a with increment := (a.increment.1, y) }
  | .distanceX x => { a with distance := (x, a.distance.2) }
  | .distanceY y => { a with distance := (a.distance.1, y) }

end AxesStyle

end PictureTree
