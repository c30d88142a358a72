/-
# `Color` — colours and the models that describe them

A colour has red, green and blue components and an opacity, each between zero
and one.  `Color.ofComponents?` admits nothing else; `Color.ofModel?` converts
the values of a colour model and is strict in the same way.  Mixing two colours
stays between them, whatever the ratio.
-/
import PictureTree.ResolveError
import PictureTree.Scalar
import PictureTree.Text.Blank

open scoped PictureTree.Scalar

namespace PictureTree

/-- A colour with its opacity. -/
structure Color (α : Type) where
  r : α
  g : α
  b : α
  o : α
deriving DecidableEq, Repr

/-- A component outside the unit interval. -/
structure OutOfRange (α : Type) where
  component : String
  value : α

/-- What an `OutOfRange` says, given the text of its value. -/
def OutOfRange.message {α : Type} (e : OutOfRange α) (write : α → String) : String :=
  "color component " ++ e.component ++ " must be within [0, 1], got " ++ write e.value

namespace Color

variable {α : Type} [Scalar α]

/-- An opaque colour. -/
def rgb (r g b : α) : Color α := ⟨r, g, b, 1⟩

/-- An opaque colour without a hue. -/
def gray (level : α) : Color α := rgb level level level

/-- Black. -/
def black : Color α := gray 0

/-- White. -/
def white : Color α := gray 1

/-- A component, if it lies in the unit interval. -/
def component? (name : String) (x : α) : Except (OutOfRange α) α :=
  if Scalar.inUnit x then .ok x else .error ⟨name, x⟩

/-- The colour of four components, or the first component out of range. -/
def ofComponents? (r g b o : α) : Except (OutOfRange α) (Color α) := do
  return ⟨← component? "r" r, ← component? "g" g, ← component? "b" b, ← component? "o" o⟩

/-- The opaque colour of three components, if they are in range. -/
def ofRgb? (r g b : α) : Except (OutOfRange α) (Color α) := ofComponents? r g b 1

/-- How much of the first colour a mix has; a ratio that is not finite means all. -/
def share (ratio : α) : α := if Scalar.isFinite ratio then Scalar.clampUnit ratio else 1

/-- The given share of `c` with the rest of `d`. -/
def mix (c d : Color α) (ratio : α) : Color α :=
  let t : α := share ratio
  let blend (x y : α) : α := x * t + y * (1 - t)
  ⟨blend c.r d.r, blend c.g d.g, blend c.b d.b, blend c.o d.o⟩

/-! ## Colour models -/

/-- Red, green and blue of a hue, a saturation and a brightness.  The hue
counts full turns; a turn has six sectors. -/
def hsbComponents (h s v : α) : α × α × α :=
  let turn : α := Scalar.fract h * 6
  let sector : α := Scalar.floor turn
  let f : α := turn - sector
  let p : α := v * (1 - s)
  let q : α := v * (1 - s * f)
  let t : α := v * (1 - s * (1 - f))
  if Scalar.eq sector 0 then (v, t, p)
  else if Scalar.eq sector 1 then (q, v, p)
  else if Scalar.eq sector 2 then (p, v, t)
  else if Scalar.eq sector 3 then (p, q, v)
  else if Scalar.eq sector 4 then (t, p, v)
  else (v, p, q)

/-- The colour models whose values are numbers. -/
inductive Model where
  | rgb | rgb255 | gray | cmyk | cmy | hsb
deriving DecidableEq, Repr

/-- The name of a model in the notation. -/
def Model.name : Model → String
  | .rgb => "rgb"
  | .rgb255 => "RGB"
  | .gray => "gray"
  | .cmyk => "cmyk"
  | .cmy => "cmy"
  | .hsb => "hsb"

/-- The model of a name. -/
def Model.ofName? (name : String) : Option Model :=
  [Model.rgb, .rgb255, .gray, .cmyk, .cmy, .hsb].find? fun m => m.name = name

/-- What is left of full brightness under two layers of ink. -/
def underInk (ink black : α) : α := 1 - Scalar.min (ink + black) 1

/-- Red, green and blue of a model's values, if their number is right. -/
def Model.components? : Model → List α → Option (α × α × α)
  | .rgb, [r, g, b] => some (r, g, b)
  | .rgb255, [r, g, b] => some (r / 255, g / 255, b / 255)
  | .gray, [v] => some (v, v, v)
  | .cmyk, [c, m, y, k] => some (underInk c k, underInk m k, underInk y k)
  | .cmy, [c, m, y] => some (1 - c, 1 - m, 1 - y)
  | .hsb, [h, s, b] => some (hsbComponents h s b)
  | _, _ => none

/-- The numbers of a list that commas and spaces separate. -/
def numbers? (values : List Char) : Option (List Numeral) :=
  let pieces := (Text.pieces (fun c => c == ',' || c == ' ') values).map Text.trim
  (pieces.filter fun p => !p.isEmpty).mapM Numeral.ofChars?

/-- The value of a hexadecimal digit. -/
def hexDigit? (c : Char) : Option Nat :=
  if c.isDigit then some (c.toNat - '0'.toNat)
  else if 'a' ≤ c && c ≤ 'f' then some (c.toNat - 'a'.toNat + 10)
  else if 'A' ≤ c && c ≤ 'F' then some (c.toNat - 'A'.toNat + 10)
  else none

/-- The number that two characters write: two hexadecimal digits, or a plus
sign and one. -/
def channel? (high low : Char) : Option Nat := do
  let h ← if high = '+' then some 0 else hexDigit? high
  return 16 * h + (← hexDigit? low)

/-- The colour that six characters write, two for each component. -/
def ofHex? (s : List Char) : Option (Color α) :=
  match s with
  | [r₁, r₀, g₁, g₀, b₁, b₀] => do
    let r ← channel? r₁ r₀
    let g ← channel? g₁ g₀
    let b ← channel? b₁ b₀
    let level (n : Nat) : α := Scalar.ofNat n / 255
    (ofRgb? (level r) (level g) (level b)).toOption
  | _ => none

/-- The opaque colour of a model's values, if they are numbers, as many as the
model has, and in range. -/
def ofNumbers? (model : Model) (values : String) : Option (Color α) := do
  let ns ← numbers? values.toList
  let (r, g, b) ← model.components? (ns.map Scalar.ofNumeral)
  (ofRgb? r g b).toOption

/-- The colour that a model's values describe.  Values that are not numbers are
reported before a model that is not known. -/
def ofModel? (model values : String) : Except ResolveError (Color α) :=
  let orInvalid (c : Option (Color α)) : Except ResolveError (Color α) :=
    match c with
    | some c => .ok c
    | none => .error (.invalidColorValues model values)
  if model = "HTML" then orInvalid (ofHex? (Text.trim values.toList))
  else match Model.ofName? model with
    | some m => orInvalid (ofNumbers? m values)
    | none =>
      if (numbers? values.toList).isSome then .error (.unknownColorModel model)
      else .error (.invalidColorValues model values)

end Color

end PictureTree
