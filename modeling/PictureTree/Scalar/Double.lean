/-
# `Scalar.Double` — arithmetic in IEEE doubles

A written number stands for the double nearest to it, and of two equally near
ones for the even one; a number beyond the largest double stands for infinity.
-/
import PictureTree.Scalar

namespace PictureTree.Double

/-- Infinity, with a sign. -/
def infinity (negative : Bool) : Float := if negative then -1.0 / 0.0 else 1.0 / 0.0

/-- The double nearest to `digits * 10 ^ exponent`.  Magnitudes far outside
the range of doubles are settled without computing the power of ten. -/
def ofMagnitude (digits : Nat) (exponent : Int) : Float :=
  if digits = 0 then 0.0
  else if exponent > 400 then infinity false
  else if exponent + (digits.log2 : Int) / 3 + 1 < -400 then 0.0
  else Float.ofScientific digits (exponent < 0) exponent.natAbs

/-- The double that a written number stands for. -/
def ofNumeral : Numeral → Float
  | .decimal negative digits exponent =>
    if negative then -(ofMagnitude digits exponent) else ofMagnitude digits exponent
  | .infinity negative => infinity negative
  | .nan => 0.0 / 0.0

/-- The greatest whole number that is not above a double.  From `2 ^ 52` on all doubles are whole;
below, the whole part is a machine word. -/
def floor (x : Float) : Float :=
  if x.abs < 4503599627370496 then
    let whole := x.abs.toUInt64.toFloat
    if whole == x.abs then x
    else if x < 0 then -(whole + 1)
    else whole
  else x

instance : Scalar Float where
  ofNumeral := ofNumeral
  lt x y := decide (x < y)
  le x y := decide (x ≤ y)
  eq x y := x == y
  isNaN := Float.isNaN
  isInfinite := Float.isInf
  abs := Float.abs
  sqrt := Float.sqrt
  floor := floor
  cos := Float.cos
  sin := Float.sin
  pi := 3.141592653589793

end PictureTree.Double
