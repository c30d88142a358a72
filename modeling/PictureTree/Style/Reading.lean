/-
# `Style.Reading` — the values of settings

Settings are read in a scope: lengths depend on its units, colour names on the
palette.  Each kind of value has one reader; a reader that cannot use a value
names the setting and the value in its error.
-/
import PictureTree.Color.Palette
import PictureTree.Document.Reader

open scoped PictureTree.Scalar

namespace PictureTree

/-- What the reading of a value depends on. -/
structure Reading (α : Type) where
  units : Units α
  palette : Palette α

namespace Reading

variable {α : Type} [Scalar α]

/-- The value of a setting if there is one, an error otherwise. -/
def orInvalid {β : Type} (p : Param) : Option β → Except ResolveError β
  | some b => .ok b
  | none => .error (.invalidValue p.key p.value)

/-- The trimmed text of a value. -/
def text (p : Param) : List Char := Text.trim p.value.toList

/-- A colour name, mixes included. -/
def color (r : Reading α) (p : Param) : Except ResolveError (Color α) := r.palette.resolve p.value

/-- A literal length in pixels, whatever it comes to. -/
def pixels? (r : Reading α) (s : List Char) : Option α := (Quantity.ofChars? s).map r.units.length

/-- A length. -/
def length? (r : Reading α) (p : Param) : Option α :=
  (r.pixels? p.value.toList).filter Scalar.isFinite

/-- A length. -/
def length (r : Reading α) (p : Param) : Except ResolveError α := orInvalid p (r.length? p)

/-- A length that is not negative. -/
def extent (r : Reading α) (p : Param) : Except ResolveError α :=
  orInvalid p ((r.length? p).filter fun x => Scalar.le 0 x)

/-- A number. -/
def number? (p : Param) : Option α :=
  ((Numeral.ofChars? (text p)).map Scalar.ofNumeral).filter Scalar.isFinite

/-- A number. -/
def number (p : Param) : Except ResolveError α := orInvalid p (number? p)

/-- A number in the unit interval. -/
def proportion (p : Param) : Except ResolveError α :=
  orInvalid p ((number? p).filter Scalar.inUnit)

/-- An angle in degrees, as radians. -/
def angle (p : Param) : Except ResolveError α := (number p).map Scalar.toRadians

/-- A whole number below `2 ^ 32`. -/
def count (p : Param) : Except ResolveError Nat := orInvalid p (count? (text p))

/-- One of some names. -/
def choice {β : Type} (names : List (String × β)) (p : Param) : Except ResolveError β :=
  orInvalid p (names.lookup (String.ofList (text p)))

/-- A switch; no value at all turns it on. -/
def flag (p : Param) : Except ResolveError Bool :=
  choice [("", true), ("true", true), ("false", false)] p

/-- A length, and a number that is zero if it is left out. -/
def sizeAndFactor? (r : Reading α) (p : Param) : Option (α × α) :=
  let numeral? (s : List Char) : Option α := (Numeral.ofChars? s).map Scalar.ofNumeral
  let pair : Option (α × α) := match Text.words p.value.toList with
    | [size] => do return (← r.pixels? size, 0)
    | [size, factor] => do return (← r.pixels? size, ← numeral? factor)
    | _ => none
  pair.filter fun (size, factor) => Scalar.isFinite size && Scalar.isFinite factor

/-- A length, and a number that is zero if it is left out. -/
def sizeAndFactor (r : Reading α) (p : Param) : Except ResolveError (α × α) :=
  orInvalid p (r.sizeAndFactor? p)

/-- Two lengths, of which only the magnitudes count. -/
def twoExtents (r : Reading α) (p : Param) : Except ResolveError (α × α) :=
  orInvalid p (match Text.words p.value.toList with
    | [a, b] => do return (Scalar.abs (← r.pixels? a), Scalar.abs (← r.pixels? b))
    | _ => none)

/-- The length of a unit in centimetres, finite and above zero. -/
def unitLength (p : Param) : Except ResolveError α :=
  let cm? : Option α := (Quantity.ofChars? p.value.toList).map (Units.ofPpc (1 : α)).length
  orInvalid p (cm?.filter fun cm => Scalar.isFinite cm && Scalar.lt 0 cm)

end Reading

end PictureTree
