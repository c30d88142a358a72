/-
# `Numeral` — written numbers

A written number is kept exactly as it was written: a sign, its digits and a
power of ten, or one of the words for infinity and for "not a number".  Which
value of an arithmetic it stands for is decided later, by `Scalar.ofNumeral`;
nothing is rounded while text is read.

`Numeral.ofChars?` reads the general form that parameters, colour values and
mixing ratios share: an optional sign, then digits with an optional point (at
least one digit) and an optional exponent, or `inf`, `infinity` or `nan` in
any letter case.  `count?` reads a whole number that fits 32 bits.
-/

namespace PictureTree

/-- A written number; `decimal` stands for `digits * 10 ^ exponent`. -/
inductive Numeral where
  | decimal (negative : Bool) (digits : Nat) (exponent : Int)
  | infinity (negative : Bool)
  | nan
deriving DecidableEq, Repr, Inhabited

namespace Numeral

/-- The number zero. -/
def zero : Numeral := .decimal false 0 0

/-- A whole number. -/
def ofNat (n : Nat) : Numeral := .decimal false n 0

/-- The number with its sign set. -/
def signed (negative : Bool) : Numeral → Numeral
  | .decimal _ digits exponent => .decimal negative digits exponent
  | .infinity _ => .infinity negative
  | .nan => .nan

/-- The value of a decimal digit. -/
def digit (c : Char) : Nat := c.toNat - '0'.toNat

/-- The whole number that decimal digits write. -/
def ofDigits (ds : List Char) : Nat := ds.foldl (fun n c => 10 * n + digit c) 0

/-- A leading sign, and the rest. -/
def splitSign : List Char → Bool × List Char
  | '-' :: s => (true, s)
  | '+' :: s => (false, s)
  | s => (false, s)

/-- The digits at the start, and the rest. -/
def splitDigits (s : List Char) : List Char × List Char :=
  (s.takeWhile Char.isDigit, s.dropWhile Char.isDigit)

/-- The digits behind a point, and the rest. -/
def splitFraction : List Char → List Char × List Char
  | '.' :: s => splitDigits s
  | s => ([], s)

/-- An exponent that is the whole text: nothing at all is the exponent zero. -/
def exponent? : List Char → Option Int
  | [] => some 0
  | e :: s =>
    if e = 'e' || e = 'E' then
      let (negative, ds) := splitSign s
      if !ds.isEmpty && ds.all Char.isDigit then
        some (if negative then -(ofDigits ds : Int) else ofDigits ds)
      else none
    else none

/-- Digits with an optional point and exponent, without a sign. -/
def unsigned? (s : List Char) : Option Numeral :=
  let (whole, behind) := splitDigits s
  let (fraction, tail) := splitFraction behind
  if whole.isEmpty && fraction.isEmpty then none
  else (exponent? tail).map fun e =>
    .decimal false (ofDigits (whole ++ fraction)) (e - fraction.length)

/-- The words for infinity and for "not a number", in any letter case. -/
def word? (s : List Char) : Option Numeral :=
  let lower := s.map Char.toLower
  if lower = ['i', 'n', 'f'] || lower = ['i', 'n', 'f', 'i', 'n', 'i', 't', 'y'] then
    some (.infinity false)
  else if lower = ['n', 'a', 'n'] then some .nan
  else none

/-- Reads a text that is one number and nothing else. -/
def ofChars? (s : List Char) : Option Numeral :=
  let (negative, body) := splitSign s
  (word? body <|> unsigned? body).map (signed negative)

end Numeral

/-- Reads a whole number below `2 ^ 32`; a plus sign may stand before it. -/
def count? (s : List Char) : Option Nat :=
  let ds := match s with
    | '+' :: ds => ds
    | ds => ds
  if ds.isEmpty || !ds.all Char.isDigit then none
  else
    let n := Numeral.ofDigits ds
    if n < 4294967296 then some n else none

end PictureTree
