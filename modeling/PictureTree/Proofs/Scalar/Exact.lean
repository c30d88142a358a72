/-
# `Proofs.Scalar.Exact` — exact arithmetic

Laws of geometry are laws of an arithmetic without rounding.  Here that is an
ordered field with a cosine and a sine that obey the addition formulas; nothing
else is asked of these two, and nothing at all of square roots and floors.  A
written decimal number stands for its value, and every value is finite.

The real numbers are such an arithmetic.
-/
import Mathlib.Analysis.SpecialFunctions.Trigonometric.Basic
import PictureTree.Scalar

namespace PictureTree

/-- Arithmetic without rounding: an ordered field, where angles have a cosine and
a sine. -/
class ExactScalar (α : Type) extends Field α, LinearOrder α, IsStrictOrderedRing α where
  ofNumeral : Numeral → α
  sqrt : α → α
  floor : α → α
  cos : α → α
  sin : α → α
  pi : α
  ofNumeral_decimal (negative : Bool) (digits : Nat) (exponent : Int) :
    ofNumeral (.decimal negative digits exponent)
      = if negative then -(digits * (10 : α) ^ exponent) else digits * (10 : α) ^ exponent
  cos_add (a b : α) : cos (a + b) = cos a * cos b - sin a * sin b
  sin_add (a b : α) : sin (a + b) = sin a * cos b + cos a * sin b

namespace ExactScalar

/-- The operations of the field and its order, and no value that is not finite. -/
instance (priority := low) {α : Type} [ExactScalar α] : Scalar α where
  ofNumeral := ofNumeral
  lt x y := decide (x < y)
  le x y := decide (x ≤ y)
  eq x y := decide (x = y)
  isNaN _ := false
  isInfinite _ := false
  abs x := |x|
  sqrt := sqrt
  floor := floor
  cos := cos
  sin := sin
  pi := pi

variable {α : Type} [ExactScalar α]

/-- A written whole number stands for itself. -/
@[simp] theorem literal_eq (n : Nat) : @OfNat.ofNat α n (Scalar.instOfNat n) = (n : α) := by
  show ofNumeral (.decimal false n 0) = _
  rw [ofNumeral_decimal]
  simp

theorem ofNat_eq (n : Nat) : (Scalar.ofNat n : α) = n := literal_eq n

theorem ofNumeral_ofNat (n : Nat) : (Scalar.ofNumeral (.ofNat n) : α) = n := literal_eq n

/-- The smaller value is that of the order. -/
@[simp] theorem scalar_min_eq (x y : α) : Scalar.min x y = min x y := by
  show (if decide (y < x) = true then y else x) = min x y
  simp only [decide_eq_true_eq, min_def]
  split <;> split <;> order

/-- The larger value is that of the order. -/
@[simp] theorem scalar_max_eq (x y : α) : Scalar.max x y = max x y := by
  show (if decide (x < y) = true then y else x) = max x y
  simp only [decide_eq_true_eq, max_def]
  split <;> split <;> order

end ExactScalar

noncomputable instance : ExactScalar ℝ where
  ofNumeral
    | .decimal negative digits exponent =>
        if negative then -(digits * (10 : ℝ) ^ exponent) else digits * (10 : ℝ) ^ exponent
    | .infinity _ | .nan => 0
  sqrt := Real.sqrt
  floor x := ⌊x⌋
  cos := Real.cos
  sin := Real.sin
  pi := Real.pi
  ofNumeral_decimal _ _ _ := rfl
  cos_add := Real.cos_add
  sin_add := Real.sin_add

end PictureTree
