/-
# `Path` — merging path commands into runs

A custom path is spelled as many small moves, lines and curves.  `Path`
records each of them from the cursor it was issued at; `Path.runs` then folds
the record into as few point lists as possible.

A run ends at a move, at a closing command (which also closes it), or when the
segments change between lines and curves.  The next segment starts a new run
from its own start point, so no segment is lost.
-/
import PictureTree.Point

namespace PictureTree

/-- How consecutive points of a path are joined. -/
inductive SegmentKind where
  | lines
  | curves
deriving DecidableEq, Repr

/-- One recorded command of a path. -/
inductive PathStep (α : Type) where
  | move
  | segment (kind : SegmentKind) (start target : Point α)
  | close
deriving DecidableEq, Repr

/-- One merged point list. -/
structure PathRun (α : Type) where
  kind : SegmentKind
  points : List (Point α)
  opened : Bool
deriving DecidableEq, Repr

/-- A path as far as it has been drawn: the latest point, and the recorded
commands, newest first. -/
structure Path (α : Type) where
  cursor : Point α
  recorded : List (PathStep α)
deriving DecidableEq, Repr

namespace PathRun

/-- The run of a single segment. -/
def ofSegment {α : Type} (kind : SegmentKind) (start target : Point α) : PathRun α :=
  ⟨kind, [start, target], true⟩

/-- The run with a further point. -/
def extend {α : Type} (run : PathRun α) (target : Point α) : PathRun α :=
  { run with points := run.points ++ [target] }

/-- The run, closed. -/
def closed {α : Type} (run : PathRun α) : PathRun α := { run with opened := false }

end PathRun

/-- The runs of some steps, the first of which continue the run `current`. -/
def PathStep.runsFrom {α : Type} (current : Option (PathRun α)) :
    List (PathStep α) → List (PathRun α)
  | [] => current.toList
  | .move :: steps => current.toList ++ runsFrom none steps
  | .close :: steps => (current.map PathRun.closed).toList ++ runsFrom none steps
  | .segment kind start target :: steps =>
    match current with
    | none => runsFrom (some (.ofSegment kind start target)) steps
    | some run =>
      if run.kind = kind then runsFrom (some (run.extend target)) steps
      else run :: runsFrom (some (.ofSegment kind start target)) steps

namespace Path

variable {α : Type}

/-- A path with its cursor at the origin. -/
def empty [Scalar α] : Path α := ⟨.origin, []⟩

/-- Moves the cursor without drawing. -/
def moveTo (path : Path α) (p : Point α) : Path α := ⟨p, .move :: path.recorded⟩

/-- Draws a segment from the cursor. -/
def segmentTo (path : Path α) (kind : SegmentKind) (p : Point α) : Path α :=
  ⟨p, .segment kind path.cursor p :: path.recorded⟩

/-- Draws a straight segment. -/
def lineTo (path : Path α) (p : Point α) : Path α := path.segmentTo .lines p

/-- Draws a curved segment, of which only the end point is kept. -/
def curveTo (path : Path α) (p : Point α) : Path α := path.segmentTo .curves p

/-- Closes the current run; the cursor stays where it is. -/
def close (path : Path α) : Path α := { path with recorded := .close :: path.recorded }

/-- The recorded commands, oldest first. -/
def steps (path : Path α) : List (PathStep α) := path.recorded.reverse

/-- The merged runs, in drawing order. -/
def runs (path : Path α) : List (PathRun α) := PathStep.runsFrom none path.steps

@[simp] theorem steps_empty [Scalar α] : (empty : Path α).steps = [] := rfl

@[simp] theorem steps_moveTo (path : Path α) (p : Point α) :
    (path.moveTo p).steps = path.steps ++ [.move] := by
  simp [steps, moveTo]

@[simp] theorem steps_segmentTo (path : Path α) (kind : SegmentKind) (p : Point α) :
    (path.segmentTo kind p).steps = path.steps ++ [.segment kind path.cursor p] := by
  simp [steps, segmentTo]

@[simp] theorem steps_close (path : Path α) : path.close.steps = path.steps ++ [.close] := by
  simp [steps, close]

end Path

end PictureTree
