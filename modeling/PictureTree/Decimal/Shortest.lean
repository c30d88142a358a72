/-
# `Decimal.Shortest` — the fewest digits that read back

A positive double is `m * 2 ^ q`.  The reals that round to it form an interval
around it, and the double is written with the fewest digits that name a point
of that interval, of several such points the nearest one.

Everything is exact arithmetic on whole numbers.  For each digit count the two
neighbours of the value on the grid of that many digits are tested; the first
grid with a neighbour in the interval wins.  If both neighbours are in it and
equally near, the upper one is taken.

`display` writes the digits positionally, without an exponent and without a
point when nothing stands behind it.
-/
import PictureTree.Scalar.Double
import PictureTree.Text.Blank

namespace PictureTree.Decimal

/-- What a double is, by its bits. -/
inductive Parts where
  | finite (negative : Bool) (mantissa : Nat) (exponent : Int)
  | infinite (negative : Bool)
  | nan
deriving DecidableEq, Repr

/-- The parts of a double, `mantissa * 2 ^ exponent` if it is finite. -/
def parts (x : Float) : Parts :=
  let bits : Nat := x.toBits.toNat
  let negative : Bool := bits / Nat.pow 2 63 % 2 == 1
  let biased : Nat := bits / Nat.pow 2 52 % 2048
  let fraction : Nat := bits % Nat.pow 2 52
  if biased = 2047 then (if fraction = 0 then .infinite negative else .nan)
  else if biased = 0 then .finite negative fraction (-1074)
  else .finite negative (Nat.pow 2 52 + fraction) ((biased : Int) - 1075)

/-- The sign of `a * 2 ^ q - c * 10 ^ t`, in exact arithmetic. -/
def compareScaled (a : Nat) (q : Int) (c : Nat) (t : Int) : Ordering :=
  compare (a * Nat.pow 2 q.toNat * Nat.pow 10 (-t).toNat)
    (c * Nat.pow 10 t.toNat * Nat.pow 2 (-q).toNat)

/-- The whole part of `m * 2 ^ q / 10 ^ t`. -/
def quotient (m : Nat) (q t : Int) : Nat :=
  m * Nat.pow 2 q.toNat * Nat.pow 10 (-t).toNat / (Nat.pow 10 t.toNat * Nat.pow 2 (-q).toNat)

/-- Whether `c * 10 ^ t` rounds to the double `m * 2 ^ q`.  The interval
reaches half way to the neighbouring doubles, of which the lower one is only
half as far away below a power of two; its ends belong to it for even `m`. -/
def readsBack (m : Nat) (q : Int) (c : Nat) (t : Int) : Bool :=
  let low := if m = Nat.pow 2 52 && q > -1074 then 4 * m - 1 else 4 * m - 2
  let high := 4 * m + 2
  match compareScaled low (q - 2) c t, compareScaled high (q - 2) c t with
  | .lt, .gt => true
  | .eq, _ | _, .eq => m % 2 == 0
  | _, _ => false

/-- The neighbour of `m * 2 ^ q` among the multiples of `10 ^ t` that reads
back, the nearer one of two and the upper one of two equally near. -/
def onGrid? (m : Nat) (q t : Int) : Option Nat :=
  let below := quotient m q t
  let above := below + 1
  match readsBack m q below t, readsBack m q above t with
  | true, true =>
    if compareScaled (2 * m) q (below + above) t = .lt then some below else some above
  | true, false => some below
  | false, true => some above
  | false, false => none

/-- The least `t` for which `m * 2 ^ q < 10 ^ t`, searched upwards from `t`. -/
def magnitude (m : Nat) (q : Int) : Nat → Int → Int
  | 0, t => t
  | steps + 1, t => if compareScaled m q 1 t = .lt then t else magnitude m q steps (t + 1)

/-- The coarsest grid with a point that reads back, searched downwards from
the grid of multiples of `10 ^ t`. -/
def search (m : Nat) (q : Int) : Nat → Int → Nat × Int
  | 0, t => (quotient m q t, t)
  | steps + 1, t =>
    match onGrid? m q t with
    | some c => (c, t)
    | none => search m q steps (t - 1)

/-- Digits and a power of ten for the positive double `m * 2 ^ q`. -/
def shortest (m : Nat) (q : Int) : Nat × Int :=
  search m q 20 (magnitude m q 700 (-330) - 1)

/-- The digits of `c * 10 ^ t`, written positionally. -/
def positional (c : Nat) (t : Int) : List Char :=
  let digits := (toString c).toList
  if t ≥ 0 then digits ++ List.replicate t.toNat '0'
  else
    let places := (-t).toNat
    let padded := List.replicate (places + 1 - digits.length) '0' ++ digits
    let whole := padded.take (padded.length - places)
    let fraction := Text.trimEnd (· == '0') (padded.drop (padded.length - places))
    if fraction.isEmpty then whole else whole ++ '.' :: fraction

/-- A double with the fewest digits that read back, positionally. -/
def display (x : Float) : String :=
  match parts x with
  | .nan => "NaN"
  | .infinite negative => if negative then "-inf" else "inf"
  | .finite negative m q =>
    let (c, t) := if m = 0 then (0, 0) else shortest m q
    let digits := positional c t
    String.ofList (if negative then '-' :: digits else digits)

end PictureTree.Decimal
