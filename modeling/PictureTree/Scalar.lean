/-
# `Scalar` — the arithmetic that geometry is computed in

Every computed number belongs to a type with the operations of `Scalar`.  The
program runs on IEEE doubles, the instance of `Scalar.Double`; a law about
exact geometry is a law about another instance, with no rounding and no
values that are not finite.  Comparisons answer a `Bool`, and `isNaN` and
`isInfinite` are part of the arithmetic because the program asks for them.

`open Scalar` makes decimal literals of any arithmetic available.
-/
import PictureTree.Numeral

namespace PictureTree

/-- Arithmetic with comparisons, the operations of plane geometry, and the
values that written numbers stand for. -/
class Scalar (α : Type) extends Add α, Sub α, Mul α, Div α, Neg α where
  /-- The value that a written number stands for. -/
  ofNumeral : Numeral → α
  /-- Strictly below. -/
  lt : α → α → Bool
  /-- Below or equal. -/
  le : α → α → Bool
  /-- Equal as numbers. -/
  eq : α → α → Bool
  /-- Not a number. -/
  isNaN : α → Bool
  /-- Beyond every number. -/
  isInfinite : α → Bool
  /-- The absolute value. -/
  abs : α → α
  /-- The square root. -/
  sqrt : α → α
  /-- The greatest whole number that is not above. -/
  floor : α → α
  /-- The cosine of an angle in radians. -/
  cos : α → α
  /-- The sine of an angle in radians. -/
  sin : α → α
  /-- Half a turn in radians. -/
  pi : α

namespace Scalar

variable {α : Type} [Scalar α]

/-- The value of `digits / 10 ^ places`. -/
def ofDecimal (digits places : Nat) : α := ofNumeral (.decimal false digits (-(places : Int)))

scoped instance (n : Nat) : OfNat α n := ⟨ofNumeral (.ofNat n)⟩

scoped instance : OfScientific α :=
  ⟨fun digits below exponent =>
    ofNumeral (.decimal false digits (if below then -(exponent : Int) else exponent))⟩

/-- A whole number as a value. -/
def ofNat (n : Nat) : α := ofNumeral (.ofNat n)

/-- Neither infinite nor "not a number". -/
def isFinite (x : α) : Bool := !isNaN x && !isInfinite x

/-- The smaller value; a value that is not a number gives way to the other. -/
def min (x y : α) : α :=
  if isNaN x then y else if isNaN y then x else if lt y x then y else x

/-- The larger value; a value that is not a number gives way to the other. -/
def max (x y : α) : α :=
  if isNaN x then y else if isNaN y then x else if lt x y then y else x

/-- The nearest value of the unit interval. -/
def clampUnit (x : α) : α := if lt x 0 then 0 else if lt 1 x then 1 else x

/-- Whether a value lies in the unit interval. -/
def inUnit (x : α) : Bool := le 0 x && le x 1

/-- What is left of a value above its floor. -/
def fract (x : α) : α := x - floor x

/-- Degrees as radians. -/
def toRadians (degrees : α) : α := degrees * (pi / 180)

/-- Radians as degrees. -/
def toDegrees (radians : α) : α := radians * (180 / pi)

/-- A counter-clockwise angle in degrees, as drawn, as a rotation in model
space, where the vertical axis points down. -/
def rotation (degrees : α) : α := -degrees * pi / 180

end Scalar

end PictureTree
