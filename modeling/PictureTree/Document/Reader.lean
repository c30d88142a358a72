/-
# `Document.Reader` — documents from the nodes of the grammar

A source is matched by the grammar as a whole, and the nodes of the match are
read into items.  Reading looks at the parts of a node by their rules; it fails
only on nodes that the grammar does not make.
-/
import PictureTree.Document
import PictureTree.Grammar.Match
import PictureTree.Grammar.Rules

namespace PictureTree

namespace Node

/-- The rule of a node. -/
def rule : Node Rule → Rule
  | .mk r _ _ => r

/-- The text of a node. -/
def text : Node Rule → List Char
  | .mk _ t _ => t

/-- The parts of a node. -/
def parts : Node Rule → List (Node Rule)
  | .mk _ _ ps => ps

/-- The parts that a rule made. -/
def all (n : Node Rule) (r : Rule) : List (Node Rule) := n.parts.filter fun p => p.rule = r

/-- The first part that a rule made. -/
def first? (n : Node Rule) (r : Rule) : Option (Node Rule) := n.parts.find? fun p => p.rule = r

/-- Whether a rule made a part. -/
def has (n : Node Rule) (r : Rule) : Bool := n.parts.any fun p => p.rule = r

/-- The text of the first part that a rule made. -/
def text? (n : Node Rule) (r : Rule) : Option (List Char) := (n.first? r).map text

/-- The trimmed text of the first part that a rule made. -/
def trimmed? (n : Node Rule) (r : Rule) : Option String := (n.text? r).map Text.trimmed

/-- The trimmed text inside the first braced text. -/
def bracedText? (n : Node Rule) : Option String :=
  (n.text? .bracedText).map fun t => Text.trimmed (Text.unbrace t)

/-! ## Arguments -/

/-- A number with an optional unit. -/
def quantity? (n : Node Rule) : Option Quantity := do
  let number ← Numeral.ofChars? (← n.text? .number)
  match n.text? .unit with
  | none => return ⟨number, none⟩
  | some u => return ⟨number, some (← LengthUnit.ofLetters? u)⟩

/-- The two quantities of a pair. -/
def pair? (n : Node Rule) : Option (Quantity × Quantity) :=
  match n.all .quantity with
  | [a, b] => do return (← a.quantity?, ← b.quantity?)
  | _ => none

/-- A coordinate; an empty pair of parentheses is the origin. -/
def coord? (n : Node Rule) : Option Coord :=
  match n.first? .polarPair, n.first? .cartesianPair with
  | some p, _ => p.pair?.map fun (r, a) => .polar r a
  | none, some p => p.pair?.map fun (x, y) => .cartesian x y
  | none, none => some .origin

/-- The quantity of a braced argument. -/
def argument? (n : Node Rule) : Option Quantity := do (← n.first? .quantity).quantity?

/-- All coordinates among the parts. -/
def coords? (n : Node Rule) : Option (List Coord) := (n.all .coord).mapM coord?

/-- A setting; an outer pair of braces around its value is dropped. -/
def param (n : Node Rule) : Param where
  key := String.ofList ((n.text? .paramKey).getD [])
  value := Text.trimmed (Text.unbrace (Text.trim ((n.text? .paramValue).getD [])))

/-- The settings among the parts. -/
def settings (n : Node Rule) : List Param := (n.all .param).map param

/-- The bracketed settings. -/
def params (n : Node Rule) : List Param := ((n.first? .params).map settings).getD []

/-- The arrow specification, without its braces. -/
def arrows (n : Node Rule) : Option String :=
  (n.text? .arrows).map fun t =>
    Text.trimmed (Text.trimBy (fun c => c == '\x7b' || c == '\x7d') t)

/-- The arguments of a shape command. -/
def arguments? (n : Node Rule) : Option Arguments := do
  return {
    starred := n.has .star
    params := n.params
    arrows := n.arrows
    coords := ← n.coords?
    numbers := ← (n.all .argument).mapM argument? }

/-- A number, or a letter for a direction; a star makes it absolute. -/
def angleSpec? (t : List Char) : Option AngleSpec :=
  let (absolute, body) := match t with
    | '*' :: body => (true, body)
    | body => (false, body)
  let degrees : Option Numeral := match body with
    | ['U'] | ['N'] => some (.ofNat 0)
    | ['L'] | ['W'] => some (.ofNat 90)
    | ['D'] | ['S'] => some (.ofNat 180)
    | ['R'] | ['E'] => some (.ofNat 270)
    | _ => Numeral.ofChars? body
  degrees.map fun d => ⟨absolute, d⟩

/-- The angle of a placed scope, if it has one. -/
def placeAngle? (n : Node Rule) : Option (Option AngleSpec) :=
  match n.first? .placeAngle with
  | none => some none
  | some a => do return some (← angleSpec? (← a.text? .angleSpec))

/-- The name of the point that a placed scope is aligned at. -/
def refPoint (n : Node Rule) : Option String := do (← n.first? .refPoint).trimmed? .refName

/-- A colour, by name or by values. -/
def colorSpec? (n : Node Rule) : Option ColorSpec := do
  let spec ← n.first? .colorSpec
  return ⟨(spec.text? .colorModel).map String.ofList, ← spec.trimmed? .colorValues⟩

/-! ## Commands -/

/-- What a command name says about a curve. -/
def curveKind (n : Node Rule) : CurveKind :=
  match n.text? .curveName with
  | some t => if t = "\\psccurve".toList then .closed
      else if t = "\\psecurve".toList then .ends else .open
  | none => .open

/-- What a command name says about a new colour. -/
def newColorKind (n : Node Rule) : NewColor :=
  match n.text? .newColorName with
  | some t => if t = "\\newgray".toList then .gray
      else if t = "\\newcmykcolor".toList then .cmyk
      else if t = "\\newhsbcolor".toList then .hsb else .rgb
  | none => .rgb

/-- The shape command of a node. -/
def shapeCommand? (n : Node Rule) : Option ShapeCommand :=
  match n.rule with
  | .frame => some .frame
  | .diamond => some .diamond
  | .triangle => some .triangle
  | .ellipse => some .ellipse
  | .circle => some .circle
  | .disk => some .disk
  | .wedge => some .wedge
  | .arc => some (.arc (n.text? .arcName == some "\\psarcn".toList))
  | .line => some .line
  | .segment => some .segment
  | .polygon => some .polygon
  | .bezier => some .bezier
  | .dot => some .dot
  | .dots => some .dots
  | .grid => some .grid
  | .axes => some .axes
  | .plot => n.bracedText?.map .plot
  | .curve => some (.curve n.curveKind)
  | _ => none

/-- The path command of a node. -/
def pathCommand? (n : Node Rule) : Option PathCommand := do
  let coords ← n.coords?
  match n.rule, coords with
  | .moveTo, [p] => return .moveTo p
  | .lineTo, ps => return .lineTo false ps
  | .lineBy, ps => return .lineTo true ps
  | .curveTo, [p, q, r] => return .curveTo false p q r
  | .curveBy, [p, q, r] => return .curveTo true p q r
  | .closePath, _ => return .close
  | _, _ => none

/-- The command of a node. -/
def command? (n : Node Rule) : Option Command :=
  match n.rule with
  | .settings => some (.set n.settings)
  | .framedBox => do
    let name := Text.trimStart (· == '\\') (← n.text? .boxName)
    return .framedBox (String.ofList name) (← n.bracedText?)
  | .defineColor => do
    return .defineColor (← n.trimmed? .colorName) (← n.trimmed? .colorModel)
      (← n.trimmed? .colorValues)
  | .newColor => do
    return .newColor n.newColorKind (← n.trimmed? .colorName) (← n.trimmed? .colorValues)
  | .useColor => do return .useColor (← n.colorSpec?)
  | .textColor => do return .textColor (← n.colorSpec?) (← n.bracedText?)
  | .include => do return .includePicture n.params (← n.trimmed? .filePath)
  | .text => some (.text (String.ofList n.text))
  | .moveTo | .lineTo | .lineBy | .curveTo | .curveBy | .closePath =>
    n.pathCommand?.map .path
  | _ => do return .shape (← n.shapeCommand?) (← n.arguments?)

/-- The head of the scope of a node, if it is one. -/
def scopeHead? (n : Node Rule) : Option ScopeHead :=
  match n.rule with
  | .picture => do return .picture (n.has .star) n.params (← n.coords?)
  | .block => some .block
  | .custom => some (.custom (n.has .star) n.params)
  | .place => do
    return .place (n.has .star) n.refPoint (← n.placeAngle?) (← (← n.first? .coord).coord?)
  | .turn => do
    return .turn n.params (← (← n.first? .coord).coord?) (← (← n.first? .argument).argument?)
  | _ => none

/-- Whether a rule makes a scope. -/
def isScope (r : Rule) : Bool :=
  match r with
  | .picture | .block | .custom | .place | .turn => true
  | _ => false

/-- Whether a rule makes the items of a scope. -/
def isBody (r : Rule) : Bool :=
  match r with
  | .body | .customBody => true
  | _ => false

end Node

mutual

/-- The item of a node. -/
def Item.ofNode? : Node Rule → Option Item
  | .mk r t parts =>
    if Node.isScope r then do
      return .scope (← Node.scopeHead? (.mk r t parts)) (← Item.ofBody? parts)
    else (Node.command? (.mk r t parts)).map .command

/-- The items of the first body among some nodes. -/
def Item.ofBody? : List (Node Rule) → Option (List Item)
  | [] => none
  | .mk r _ parts :: rest => if Node.isBody r then Item.ofNodes? parts else Item.ofBody? rest

/-- The items of some nodes. -/
def Item.ofNodes? : List (Node Rule) → Option (List Item)
  | [] => some []
  | n :: ns => do return (← Item.ofNode? n) :: (← Item.ofNodes? ns)

end

/-- The items of a source, if the grammar matches it. -/
def Item.ofSource? (source : String) : Option (List Item) := do
  Item.ofNodes? (← grammar.whole? .document source.toList).parts

/-- A number with an optional unit that is a whole text, blanks around it aside. -/
def Quantity.ofChars? (s : List Char) : Option Quantity := do
  (← grammar.whole? .quantity (Text.trim s)).quantity?

end PictureTree
