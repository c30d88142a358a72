/-
# `Document` — what a source says

A document is a list of items.  An item is a scope with its items, or a command
without a body; commands keep their arguments as they are written, and what
those mean is decided where the command is drawn.

`Item.events` lists a document in the order in which it is drawn: a scope
begins, its items follow, and the scope ends.
-/
import PictureTree.Length

namespace PictureTree

/-- A setting as it is written; without a value the value is empty. -/
structure Param where
  key : String
  value : String
deriving DecidableEq, Repr

/-- The angle of a placed scope; an absolute one cancels the rotations around it. -/
structure AngleSpec where
  absolute : Bool
  degrees : Numeral
deriving DecidableEq, Repr

/-- How a scope begins. -/
inductive ScopeHead where
  /-- A picture environment, with up to two corners. -/
  | picture (starred : Bool) (params : List Param) (corners : List Coord)
  /-- A pair of braces. -/
  | block
  /-- A path spelled by commands. -/
  | custom (starred : Bool) (params : List Param)
  /-- A scope that is turned about the origin and then moved. -/
  | place (starred : Bool) (refPoint : Option String) (angle : Option AngleSpec)
      (position : Coord)
  /-- A scope that is turned about a centre. -/
  | turn (params : List Param) (center : Coord) (angle : Quantity)
deriving DecidableEq, Repr

/-- The five kinds of scopes. -/
inductive ScopeKind where
  | picture | block | custom | place | turn
deriving DecidableEq, Repr

/-- The kind of scope that a head begins. -/
def ScopeHead.kind : ScopeHead → ScopeKind
  | .picture .. => .picture
  | .block => .block
  | .custom .. => .custom
  | .place .. => .place
  | .turn .. => .turn

/-- What becomes of the two ends of a curve. -/
inductive CurveKind where
  | open
  | closed
  /-- The first and the last point only steer the curve. -/
  | ends
deriving DecidableEq, Repr

/-- The commands that draw shapes from coordinates and arguments. -/
inductive ShapeCommand where
  | frame | diamond | triangle | ellipse | circle | disk | wedge
  | arc (clockwise : Bool)
  | line | segment | polygon | bezier | dot | dots | grid | axes
  | plot (function : String)
  | curve (kind : CurveKind)
deriving DecidableEq, Repr

/-- What a shape command is given. -/
structure Arguments where
  starred : Bool
  params : List Param
  arrows : Option String
  coords : List Coord
  numbers : List Quantity
deriving DecidableEq, Repr

/-- The commands that define a colour of one model. -/
inductive NewColor where
  | rgb | gray | cmyk | hsb
deriving DecidableEq, Repr

/-- The colour model that such a command stands for. -/
def NewColor.model : NewColor → String
  | .rgb => "rgb"
  | .gray => "gray"
  | .cmyk => "cmyk"
  | .hsb => "hsb"

/-- A colour by name, or by values of a model. -/
structure ColorSpec where
  model : Option String
  values : String
deriving DecidableEq, Repr

/-- The commands that spell a path; points may be relative to the cursor. -/
inductive PathCommand where
  | moveTo (point : Coord)
  | lineTo (relative : Bool) (points : List Coord)
  | curveTo (relative : Bool) (first second last : Coord)
  | close
deriving DecidableEq, Repr

/-- Everything that has no body. -/
inductive Command where
  | set (params : List Param)
  | shape (command : ShapeCommand) (arguments : Arguments)
  | framedBox (name text : String)
  | defineColor (name model values : String)
  | newColor (kind : NewColor) (name values : String)
  | useColor (color : ColorSpec)
  | textColor (color : ColorSpec) (text : String)
  | includePicture (params : List Param) (path : String)
  | path (command : PathCommand)
  | text (word : String)
deriving DecidableEq, Repr

/-- A scope with its items, or a command. -/
inductive Item where
  | scope (head : ScopeHead) (items : List Item)
  | command (c : Command)
deriving Repr

/-- One step of drawing a document. -/
inductive Event where
  | enter (head : ScopeHead)
  | exit (kind : ScopeKind)
  | command (c : Command)
deriving DecidableEq, Repr

mutual

/-- The events of an item. -/
def Item.events : Item → List Event
  | .scope head items => .enter head :: (Item.eventsOfAll items ++ [.exit head.kind])
  | .command c => [.command c]

/-- The events of some items, in order. -/
def Item.eventsOfAll : List Item → List Event
  | [] => []
  | item :: items => item.events ++ Item.eventsOfAll items

end

theorem Item.eventsOfAll_append (xs ys : List Item) :
    Item.eventsOfAll (xs ++ ys) = Item.eventsOfAll xs ++ Item.eventsOfAll ys := by
  induction xs with
  | nil => rfl
  | cons x xs ih => simp [Item.eventsOfAll, ih]

end PictureTree
