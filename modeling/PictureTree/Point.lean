/-
# `Point` — points of model space

Model space is measured in pixels with the vertical axis pointing down, so a
rotation by a positive angle turns clockwise on screen.  `Point.ofCoords?`
admits finite coordinates only and names what is wrong with the first one
that is not.
-/
import PictureTree.Scalar

open scoped PictureTree.Scalar

namespace PictureTree

/-- Why a number cannot be used. -/
inductive NumericError where
  | nan
  | infinite
deriving DecidableEq, Repr

/-- What a `NumericError` says. -/
def NumericError.message : NumericError → String
  | .nan => "value is NaN"
  | .infinite => "value is infinite"

/-- A point or a displacement in the plane. -/
structure Point (α : Type) where
  x : α
  y : α
deriving DecidableEq, Repr

variable {α : Type} [Scalar α]

/-- A number that is finite, as it is. -/
def finite (x : α) : Except NumericError α :=
  if Scalar.isNaN x then .error .nan
  else if Scalar.isInfinite x then .error .infinite
  else .ok x

namespace Point

/-- The point that both axes pass through. -/
def origin : Point α := ⟨0, 0⟩

/-- The point with the given coordinates, if they are finite. -/
def ofCoords? (x y : α) : Except NumericError (Point α) := do
  return ⟨← finite x, ← finite y⟩

/-- The point moved by a displacement. -/
def add (p v : Point α) : Point α := ⟨p.x + v.x, p.y + v.y⟩

/-- The displacement from `q` to `p`. -/
def sub (p q : Point α) : Point α := ⟨p.x - q.x, p.y - q.y⟩

instance : Add (Point α) := ⟨add⟩
instance : Sub (Point α) := ⟨sub⟩

/-- The point moved along both axes. -/
def translate (p : Point α) (dx dy : α) : Point α := ⟨p.x + dx, p.y + dy⟩

/-- The displacement turned by an angle about the origin. -/
def turn (v : Point α) (angle : α) : Point α :=
  let c := Scalar.cos angle
  let s := Scalar.sin angle
  ⟨c * v.x - s * v.y, s * v.x + c * v.y⟩

/-- The point turned by an angle about a centre. -/
def rotateAround (p center : Point α) (angle : α) : Point α :=
  center + (p - center).turn angle

/-- The point reflected through a centre. -/
def reflect (p center : Point α) : Point α := ⟨2 * center.x - p.x, 2 * center.y - p.y⟩

/-- The distance between two points. -/
def distance (p q : Point α) : α :=
  let v := p - q
  Scalar.sqrt (v.x * v.x + v.y * v.y)

/-- Whether two points agree within a tolerance on both axes. -/
def near (p q : Point α) (tolerance : α) : Bool :=
  Scalar.le (Scalar.abs (p.x - q.x)) tolerance && Scalar.le (Scalar.abs (p.y - q.y)) tolerance

/-- The coordinatewise smaller point. -/
def min (p q : Point α) : Point α := ⟨Scalar.min p.x q.x, Scalar.min p.y q.y⟩

/-- The coordinatewise larger point. -/
def max (p q : Point α) : Point α := ⟨Scalar.max p.x q.x, Scalar.max p.y q.y⟩

/-- The centre of the bounding box of some points; the origin if there are none. -/
def boundsCenter : List (Point α) → Point α
  | [] => origin
  | p :: ps =>
    let low := ps.foldl min p
    let high := ps.foldl max p
    ⟨(low.x + high.x) / 2, (low.y + high.y) / 2⟩

end Point

end PictureTree
