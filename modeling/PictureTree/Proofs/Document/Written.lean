/-
# `Proofs.Document.Written` — shape commands as they are written

A shape command is its name and its operands: a star, settings in brackets, arrows,
coordinates, numbers in braces, and the function of a plot.  Which operands a command
may have, and in which order, is a list of slots.

    what a command is written with     `Written.pieces`
    what it says                       `Written.command`, `Written.arguments`

The pieces are the tokens of the command, with three exceptions, where text is read
as a whole: what stands between the braces of arrows, a value of a setting up to the
comma or bracket behind it, and the function of a plot.  The grammar reads no other
shape commands (`Proofs.Document.Recognized`).
-/
import PictureTree.Proofs.Document.Tokens

namespace PictureTree

/-! ## Operands -/

/-- A number with an optional unit. -/
structure Measure where
  number : List Char
  unit : Option LengthUnit
  plain : Numeral.Plain number

namespace Measure

variable (m : Measure)

def text : List Char := m.number ++ (m.unit.map LengthUnit.letters).getD []

def quantity : Quantity := ⟨(Numeral.ofChars? m.number).getD .zero, m.unit⟩

end Measure

/-- A coordinate: nothing in parentheses, or two measures with a comma or a semicolon between
them. -/
inductive Position where
  | origin
  | cartesian (x y : Measure)
  | polar (radius angle : Measure)

namespace Position

/-- The pieces of a coordinate in front of others. -/
def before (ps : List (List Char)) : Position → List (List Char)
  | .origin => ['('] :: [')'] :: ps
  | .cartesian x y => ['('] :: x.text :: [','] :: y.text :: [')'] :: ps
  | .polar r a => ['('] :: r.text :: [';'] :: a.text :: [')'] :: ps

def coord : Position → Coord
  | .origin => .origin
  | .cartesian x y => .cartesian x.quantity y.quantity
  | .polar r a => .polar r.quantity a.quantity

end Position

/-- A setting, with or without a value. -/
structure Entry where
  key : List Char
  value : Option (List Char)
  isKey : IsKey key
  isValue : ∀ v ∈ value, IsValue v

namespace Entry

/-- The pieces of a setting in front of others; a value is one piece with what is behind it. -/
def before (e : Entry) (ps : List (List Char)) : List (List Char) :=
  e.key :: match e.value with
    | none => ps
    | some v => ['='] :: glue v ps

/-- The pieces of settings with a comma in front of each. -/
def more : List Entry → List (List Char) → List (List Char)
  | [], ps => ps
  | e :: es, ps => [','] :: e.before (more es ps)

/-- The pieces of settings with commas between them. -/
def listed : List Entry → List (List Char) → List (List Char)
  | [], ps => ps
  | e :: es, ps => e.before (more es ps)

def param (e : Entry) : Param where
  key := String.ofList e.key
  value := Text.trimmed (Text.unbrace (Text.trim (e.value.getD [])))

end Entry

/-- Arrows, with what stands between them and their braces. -/
structure Arrowed where
  left : List Char
  arrows : List Char
  right : List Char
  isArrows : IsArrows arrows
  closedLeft : Closed left
  closedRight : Closed right

/-- What may stand behind the name of a shape command. -/
inductive Operand where
  | star
  /-- Settings in brackets; a comma may follow the last one. -/
  | params (entries : List Entry) (trailing : Bool)
  | arrows (a : Arrowed)
  | coord (p : Position)
  | argument (m : Measure)
  /-- The function of a plot, in braces. -/
  | function (t : List Char) (ht : Balanced t)

namespace Operand

/-- The rule that matches an operand. -/
def rule : Operand → Rule
  | .star => .star
  | .params .. => .params
  | .arrows _ => .arrows
  | .coord _ => .coord
  | .argument _ => .argument
  | .function .. => .bracedText

/-- The pieces behind the settings in a bracket. -/
def closing (trailing : Bool) (ps : List (List Char)) : List (List Char) :=
  if trailing then [','] :: [']'] :: ps else [']'] :: ps

/-- The pieces of an operand in front of others. -/
def before (ps : List (List Char)) : Operand → List (List Char)
  | .star => ['*'] :: ps
  | .params es trailing => ['['] :: Entry.listed es (closing trailing ps)
  | .arrows a => bracedArrows a.left a.arrows a.right :: ps
  | .coord p => p.before ps
  | .argument m => ['{'] :: m.text :: ['}'] :: ps
  | .function t _ => ('{' :: (t ++ ['}'])) :: ps

/-- The pieces of some operands. -/
def pieces (os : List Operand) : List (List Char) := os.foldr (fun o ps => o.before ps) []

def params? : Operand → Option (List Param)
  | .params es _ => some (es.map Entry.param)
  | _ => none

/-- Arrows, with whatever stands between them and their braces. -/
def arrows? : Operand → Option String
  | .arrows a => some (Text.trimmed (a.left ++ (a.arrows ++ a.right)))
  | _ => none

def coord? : Operand → Option Coord
  | .coord p => some p.coord
  | _ => none

def number? : Operand → Option Quantity
  | .argument m => some m.quantity
  | _ => none

def function? : Operand → Option String
  | .function t _ => some (Text.trimmed t)
  | _ => none

/-- What a command is given by its operands. -/
def arguments (os : List Operand) : Arguments where
  starred := os.any fun o => o.rule = .star
  params := (os.findSome? params?).getD []
  arrows := os.findSome? arrows?
  coords := os.filterMap coord?
  numbers := os.filterMap number?

end Operand

/-! ## Slots -/

/-- How often an operand may stand at a place. -/
inductive Slot where
  | once (r : Rule)
  | optional (r : Rule)
  | many (r : Rule)
deriving DecidableEq

namespace Slot

open PictureTree.Expr

/-- The expression of a slot. -/
def expr : Slot → Expr Rule
  | .once r => .rule r
  | .optional r => .opt (.rule r)
  | .many r => .star (.rule r)

end Slot

/-- Operands in their slots. -/
inductive Fills : List Slot → List Operand → Prop
  | nil : Fills [] []
  | once {r : Rule} {o : Operand} {slots : List Slot} {os : List Operand} (ho : o.rule = r)
      (h : Fills slots os) : Fills (.once r :: slots) (o :: os)
  | absent {r : Rule} {slots : List Slot} {os : List Operand} (h : Fills slots os) :
      Fills (.optional r :: slots) os
  | present {r : Rule} {o : Operand} {slots : List Slot} {os : List Operand} (ho : o.rule = r)
      (h : Fills slots os) : Fills (.optional r :: slots) (o :: os)
  | many {r : Rule} {slots : List Slot} {os os' : List Operand} (hr : ∀ o ∈ os, o.rule = r)
      (h : Fills slots os') : Fills (.many r :: slots) (os ++ os')

/-! ## Commands -/

namespace ShapeCommand

/-- The rule of a shape command. -/
def rule : ShapeCommand → Rule
  | .frame => .frame
  | .diamond => .diamond
  | .triangle => .triangle
  | .ellipse => .ellipse
  | .circle => .circle
  | .disk => .disk
  | .wedge => .wedge
  | .arc _ => .arc
  | .line => .line
  | .segment => .segment
  | .polygon => .polygon
  | .bezier => .bezier
  | .dot => .dot
  | .dots => .dots
  | .grid => .grid
  | .axes => .axes
  | .plot _ => .plot
  | .curve _ => .curve

/-- The name of a shape command. -/
def name : ShapeCommand → String
  | .frame => "\\psframe"
  | .diamond => "\\psdiamond"
  | .triangle => "\\pstriangle"
  | .ellipse => "\\psellipse"
  | .circle => "\\pscircle"
  | .disk => "\\qdisk"
  | .wedge => "\\pswedge"
  | .arc true => "\\psarcn"
  | .arc false => "\\psarc"
  | .line => "\\psline"
  | .segment => "\\qline"
  | .polygon => "\\pspolygon"
  | .bezier => "\\psbezier"
  | .dot => "\\psdot"
  | .dots => "\\psdots"
  | .grid => "\\psgrid"
  | .axes => "\\psaxes"
  | .plot _ => "\\psplot"
  | .curve .open => "\\pscurve"
  | .curve .closed => "\\psccurve"
  | .curve .ends => "\\psecurve"

/-- The operands of a shape command. -/
def slots : ShapeCommand → List Slot
  | .frame | .diamond | .triangle | .ellipse =>
    [.optional .star, .optional .params, .once .coord, .optional .coord]
  | .circle => [.optional .star, .optional .params, .optional .coord, .once .argument]
  | .disk => [.once .coord, .once .argument]
  | .wedge => [.optional .star, .optional .params, .optional .coord, .once .argument,
      .once .argument, .once .argument]
  | .arc _ => [.optional .star, .optional .params, .optional .arrows, .optional .coord,
      .once .argument, .once .argument, .once .argument]
  | .line | .bezier | .curve _ =>
    [.optional .star, .optional .params, .optional .arrows, .once .coord, .many .coord]
  | .segment => [.once .coord, .once .coord]
  | .polygon | .dots => [.optional .star, .optional .params, .once .coord, .many .coord]
  | .dot => [.optional .star, .optional .params, .optional .coord]
  | .grid => [.optional .params, .many .coord]
  | .axes => [.optional .params, .optional .arrows, .many .coord]
  | .plot _ => [.optional .star, .optional .params, .once .argument, .once .argument,
      .once .bracedText]

/-- The expression of the name of a shape command. -/
def head : ShapeCommand → Expr Rule
  | .arc _ => .rule .arcName
  | .curve _ => .rule .curveName
  | c => Expr.name c.name

/-- A shape command is its name with its operands behind it. -/
theorem expr_rule (c : ShapeCommand) :
    c.rule.expr = Expr.seqs (c.head :: c.slots.map Slot.expr) := by
  cases c <;> rfl

end ShapeCommand

/-- A shape command with operands in its slots; the function of a plot is an operand. -/
structure Written where
  named : ShapeCommand
  operands : List Operand
  fills : Fills named.slots operands

namespace Written

variable (w : Written)

/-- The command that is written, with the function of a plot. -/
def command : ShapeCommand :=
  match w.named with
  | .plot _ => .plot ((w.operands.findSome? Operand.function?).getD "")
  | c => c

/-- The pieces of a command: its name, and those of its operands. -/
def pieces : List (List Char) := w.named.name.toList :: Operand.pieces w.operands

def arguments : Arguments := Operand.arguments w.operands

end Written

end PictureTree
