/-
# `Decimal.Fixed` — doubles rounded to a number of digits

A double is `m * 2 ^ q`.  `rounded` is the nearest multiple of a power of ten,
the even one of two equally near, in exact arithmetic on whole numbers.
-/
import PictureTree.Decimal.Shortest

namespace PictureTree.Decimal

/-- The quotient rounded to the nearest whole number, a half to the even one. -/
def roundDiv (num den : Nat) : Nat :=
  let q := num / den
  let r := num % den
  if 2 * r < den then q else if 2 * r > den then q + 1 else q + q % 2

/-- The quotient `m * 2 ^ q / 10 ^ t`, rounded. -/
def rounded (m : Nat) (q t : Int) : Nat :=
  roundDiv (m * Nat.pow 2 q.toNat * Nat.pow 10 (-t).toNat)
    (Nat.pow 10 t.toNat * Nat.pow 2 (-q).toNat)

/-- The value with a number of decimals; zeros at the end are left out. -/
def fixed (m : Nat) (q : Int) (decimals : Nat) : List Char :=
  positional (rounded m q (-decimals)) (-decimals)

/-- The value with a number of significant digits, a power of ten behind them;
zeros at the end are left out. -/
def scientific (m : Nat) (q : Int) (digits : Nat) : List Char :=
  let e := magnitude m q 700 (-330) - 1
  let n := rounded m q (e + 1 - digits)
  let (n, e) := if n ≥ Nat.pow 10 digits then (n / 10, e + 1) else (n, e)
  positional n (1 - digits) ++ 'e' :: (toString e).toList

end PictureTree.Decimal
