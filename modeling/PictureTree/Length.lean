/-
# `Length` — lengths and coordinates as the notation writes them

A quantity is a written number with an optional length unit, a coordinate is a
pair of quantities, Cartesian or polar.  `Units` holds the scale factors of a
scope and resolves quantities: a number without a unit is scaled by the
factors, a dimensioned one is absolute.  Notation space is measured in
centimetres with the vertical axis pointing up, model space in pixels with the
vertical axis pointing down.
-/
import PictureTree.Point

open scoped PictureTree.Scalar

namespace PictureTree

/-- The units that may follow a number. -/
inductive LengthUnit where
  | cm | mm | pt | inch | bp | pc | dd | cc | sp | em | ex
deriving DecidableEq, Repr

/-- A number with an optional unit. -/
structure Quantity where
  number : Numeral
  unit : Option LengthUnit
deriving DecidableEq, Repr

/-- A coordinate pair; the angle of a polar pair is in degrees. -/
inductive Coord where
  | cartesian (x y : Quantity)
  | polar (radius angle : Quantity)
deriving DecidableEq, Repr

/-- Zero without a unit. -/
def Quantity.zero : Quantity := ⟨.zero, none⟩

/-- The coordinate of the origin. -/
def Coord.origin : Coord := .cartesian .zero .zero

namespace LengthUnit

/-- All units, in the order in which they are tried. -/
def all : List LengthUnit := [.cm, .mm, .pt, .inch, .bp, .pc, .dd, .cc, .sp, .em, .ex]

/-- The two letters that write a unit. -/
def letters : LengthUnit → List Char
  | .cm => ['c', 'm']
  | .mm => ['m', 'm']
  | .pt => ['p', 't']
  | .inch => ['i', 'n']
  | .bp => ['b', 'p']
  | .pc => ['p', 'c']
  | .dd => ['d', 'd']
  | .cc => ['c', 'c']
  | .sp => ['s', 'p']
  | .em => ['e', 'm']
  | .ex => ['e', 'x']

/-- The unit that some letters write. -/
def ofLetters? (s : List Char) : Option LengthUnit := all.find? fun u => u.letters == s

end LengthUnit

variable {α : Type} [Scalar α]

/-- The value of a quantity's number, its unit left aside. -/
def Quantity.value (q : Quantity) : α := Scalar.ofNumeral q.number

/-- Centimetres in a printer's point. -/
def pointLength : α := 2.54 / 72.27

/-- Centimetres in a unit. -/
def LengthUnit.length : LengthUnit → α
  | .cm => 1
  | .mm => 0.1
  | .inch => 2.54
  | .pt => pointLength
  | .bp => 2.54 / 72
  | .pc => 12 * pointLength
  | .dd => 1238 / 1157 * pointLength
  | .cc => 12 * 1238 / 1157 * pointLength
  | .sp => pointLength / 65536
  | .em => 0.35
  | .ex => 0.15

/-- The scale factors of a scope: pixels per centimetre, and the lengths of
the common unit and of the units of the two axes in centimetres. -/
structure Units (α : Type) where
  ppc : α
  unit : α
  xUnit : α
  yUnit : α

/-- A quantity in centimetres; a number without a unit is scaled. -/
def Quantity.centimetres (q : Quantity) (scale : α) : α :=
  match q.unit with
  | some u => q.value * u.length
  | none => q.value * scale

namespace Units

/-- Every unit one centimetre long. -/
def ofPpc (ppc : α) : Units α := ⟨ppc, 1, 1, 1⟩

/-- A horizontal length in pixels. -/
def x (u : Units α) (q : Quantity) : α := q.centimetres (u.unit * u.xUnit) * u.ppc

/-- A vertical length in pixels, upwards. -/
def y (u : Units α) (q : Quantity) : α := q.centimetres (u.unit * u.yUnit) * u.ppc

/-- A length without a direction, in pixels. -/
def length (u : Units α) (q : Quantity) : α := q.centimetres u.unit * u.ppc

/-- A length in steps of a grid, `step` centimetres each. -/
def inSteps (q : Quantity) (step : α) : α :=
  match q.unit with
  | some _ => q.centimetres 1 / step
  | none => q.value

/-- A horizontal coordinate in grid steps. -/
def gridX (u : Units α) (q : Quantity) : α := inSteps q (u.unit * u.xUnit)

/-- A vertical coordinate in grid steps, upwards. -/
def gridY (u : Units α) (q : Quantity) : α := inSteps q (u.unit * u.yUnit)

/-- Pixels in a horizontal grid step. -/
def stepX (u : Units α) : α := u.unit * u.xUnit * u.ppc

/-- Pixels in a vertical grid step. -/
def stepY (u : Units α) : α := u.unit * u.yUnit * u.ppc

/-- The displacement of a given length in a direction, counter-clockwise in degrees. -/
def polar (radius : α) (angle : Quantity) : Point α :=
  let a := Scalar.toRadians (angle.value : α)
  ⟨radius * Scalar.cos a, radius * Scalar.sin a⟩

/-- A coordinate in pixels, with the vertical axis pointing up. -/
def offset (u : Units α) : Coord → Point α
  | .cartesian qx qy => ⟨u.x qx, u.y qy⟩
  | .polar radius angle => polar (u.length radius) angle

/-- The point of model space that a coordinate stands for. -/
def point? (u : Units α) (c : Coord) : Except NumericError (Point α) :=
  let p := u.offset c
  Point.ofCoords? p.x (-p.y)

/-- A coordinate in grid steps, with the vertical axis pointing up. -/
def gridPoint (u : Units α) : Coord → Point α
  | .cartesian qx qy => ⟨u.gridX qx, u.gridY qy⟩
  | .polar radius angle => polar (u.gridX radius) angle

end Units

end PictureTree
