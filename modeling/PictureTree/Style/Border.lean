/-
# `Style.Border` — shadows and double borders

The space between the two lines of a double border follows the line width
until it is set, so a scope keeps it as an option and a shape as a number.
-/
import PictureTree.Style.Reading

open scoped PictureTree.Scalar

namespace PictureTree

/-- The shadow of a shape. -/
structure Shadow (α : Type) where
  enabled : Bool
  color : Color α
  angle : α
  size : α
deriving Repr

/-- The double border of a shape. -/
structure DoubleBorder (α : Type) where
  enabled : Bool
  color : Color α
  sep : α
deriving Repr

/-- The double border that a scope gives its shapes. -/
structure DoubleLine (α : Type) where
  enabled : Bool
  color : Color α
  sep : Option α
deriving Repr

variable {α : Type} [Scalar α]

namespace Shadow

/-- No shadow. -/
def absent : Shadow α := ⟨false, .black, 0, 0⟩

/-- A change of a shadow. -/
inductive Setting (α : Type) where
  | enabled (b : Bool)
  | color (c : Color α)
  | angle (a : α)
  | size (d : α)

/-- The key of a setting. -/
def Setting.key : Setting α → String
  | .enabled _ => "shadow"
  | .color _ => "shadowcolor"
  | .angle _ => "shadowangle"
  | .size _ => "shadowsize"

/-- The setting that a key and its value make. -/
def Setting.read? (r : Reading α) (p : Param) : Option (Except ResolveError (Setting α)) :=
  match p.key with
  | "shadow" => some ((Reading.flag p).map .enabled)
  | "shadowcolor" => some ((r.color p).map .color)
  | "shadowangle" => some ((Reading.angle p).map .angle)
  | "shadowsize" => some ((r.length p).map .size)
  | _ => none

/-- The shadow with a change made. -/
def put (s : Shadow α) : Setting α → Shadow α
  | .enabled b => { s with enabled := b }
  | .color c => { s with color := c }
  | .angle a => { s with angle := a }
  | .size d => { s with size := d }

end Shadow

/-- No double border. -/
def DoubleBorder.absent : DoubleBorder α := ⟨false, .black, 0⟩

namespace DoubleLine

/-- A change of a double border. -/
inductive Setting (α : Type) where
  | enabled (b : Bool)
  | color (c : Color α)
  | sep (d : α)

/-- The key of a setting. -/
def Setting.key : Setting α → String
  | .enabled _ => "doubleline"
  | .color _ => "doublecolor"
  | .sep _ => "doublesep"

/-- The setting that a key and its value make. -/
def Setting.read? (r : Reading α) (p : Param) : Option (Except ResolveError (Setting α)) :=
  match p.key with
  | "doubleline" => some ((Reading.flag p).map .enabled)
  | "doublecolor" => some ((r.color p).map .color)
  | "doublesep" => some ((r.extent p).map .sep)
  | _ => none

/-- The double border with a change made. -/
def put (l : DoubleLine α) : Setting α → DoubleLine α
  | .enabled b => { l with enabled := b }
  | .color c => { l with color := c }
  | .sep d => { l with sep := some d }

/-- The double border of a shape whose lines have the given width. -/
def border (l : DoubleLine α) (lineWidth : α) : DoubleBorder α :=
  ⟨l.enabled, l.color, l.sep.getD (1.25 * lineWidth)⟩

end DoubleLine

end PictureTree
