/-
# `Style.Arrows` — the ends of a line and their measures

Measures that grow with the line are pairs of a length and a multiple of the
line width.
-/
import PictureTree.Style.Arrow
import PictureTree.Style.Reading

open scoped PictureTree.Scalar

namespace PictureTree

/-- The measures of line ends. -/
structure ArrowMeasures (α : Type) where
  size : α × α
  length : α
  inset : α
  bar : α × α
  bracket : α
  roundBracket : α
  dot : α × α
deriving Repr

/-- The two ends of a line with their measures. -/
structure Arrows (α : Type) where
  left : ArrowStyle
  right : ArrowStyle
  measures : ArrowMeasures α
deriving Repr

namespace Arrows

variable {α : Type} [Scalar α]

/-- Plain line ends. -/
def absent : Arrows α := ⟨.none, .none, ⟨(0, 0), 0, 0, (0, 0), 0, 0, (0, 0)⟩⟩

/-- The arrows with their ends exchanged. -/
def swap (a : Arrows α) : Arrows α := { a with left := a.right, right := a.left }

/-- The arrows with the ends of a specification, if it can be read. -/
def withSpec (a : Arrows α) (spec : Option String) : Arrows α :=
  match spec.bind fun s => ArrowStyle.ofSpec? s.toList with
  | some (left, right) => { a with left := left, right := right }
  | none => a

/-- A change of arrows. -/
inductive Setting (α : Type) where
  | ends (left right : ArrowStyle)
  | size (m : α × α)
  | length (x : α)
  | inset (x : α)
  | bar (m : α × α)
  | bracket (x : α)
  | roundBracket (x : α)

/-- The key of a setting. -/
def Setting.key : Setting α → String
  | .ends .. => "arrows"
  | .size _ => "arrowsize"
  | .length _ => "arrowlength"
  | .inset _ => "arrowinset"
  | .bar _ => "tbarsize"
  | .bracket _ => "bracketlength"
  | .roundBracket _ => "rbracketlength"

/-- The setting that a key and its value make. -/
def Setting.read? (r : Reading α) (p : Param) : Option (Except ResolveError (Setting α)) :=
  match p.key with
  | "arrows" => some ((Reading.orInvalid p (ArrowStyle.ofSpec? p.value.toList)).map
      fun (left, right) => .ends left right)
  | "arrowsize" => some ((r.sizeAndFactor p).map .size)
  | "arrowlength" => some ((Reading.number p).map .length)
  | "arrowinset" => some ((Reading.number p).map .inset)
  | "tbarsize" => some ((r.sizeAndFactor p).map .bar)
  | "bracketlength" => some ((Reading.number p).map .bracket)
  | "rbracketlength" => some ((Reading.number p).map .roundBracket)
  | _ => none

/-- The arrows with a change made. -/
def put (a : Arrows α) : Setting α → Arrows α
  | .ends left right => { a with left := left, right := right }
  | .size m => { a with measures := { a.measures with size := m } }
  | .length x => { a with measures := { a.measures with length := x } }
  | .inset x => { a with measures := { a.measures with inset := x } }
  | .bar m => { a with measures := { a.measures with bar := m } }
  | .bracket x => { a with measures := { a.measures with bracket := x } }
  | .roundBracket x => { a with measures := { a.measures with roundBracket := x } }

end Arrows

end PictureTree
