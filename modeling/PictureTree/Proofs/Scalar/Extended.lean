/-
# `Proofs.Scalar.Extended` — exact arithmetic with infinities

A written number may be infinite, or no number at all, and a computation may
come to such a value.  `Extended` adds these three to an exact arithmetic and
calculates with them as doubles do:

    ∞ - ∞,  0 * ∞,  ∞ / ∞,  0 / 0,  the root of a negative number    no number
    x / 0                                                            infinite
    x / ∞                                                            zero

Numbers are not rounded, and zero has no sign; a division by it takes the sign
of what is divided.  Nothing compares with what is no number.

The values of the unit interval are numbers (`inUnit_iff`), whatever is clamped
to it is one of them, unless it is no number, and so is every mean of two of
them (`inUnit_mean`).
-/
import PictureTree.Proofs.Scalar.Exact

namespace PictureTree

/-- A number, an infinity with its sign, or no number. -/
inductive Extended (α : Type) where
  | number (x : α)
  | infinity (negative : Bool)
  | nan

namespace Extended

variable {α : Type} [ExactScalar α]

/-! ## Calculating -/

/-- Whether a value lies below zero. -/
def isNegative : Extended α → Bool
  | number x => decide (x < 0)
  | infinity negative => negative
  | nan => false

/-- Whether a value is zero. -/
def isZero : Extended α → Bool
  | number x => decide (x = 0)
  | infinity _ | nan => false

/-- The value that a written number stands for. -/
def ofNumeral : Numeral → Extended α
  | .decimal negative digits exponent =>
      number (ExactScalar.ofNumeral (.decimal negative digits exponent))
  | .infinity negative => infinity negative
  | .nan => nan

def neg : Extended α → Extended α
  | number x => number (-x)
  | infinity negative => infinity !negative
  | nan => nan

def add : Extended α → Extended α → Extended α
  | number x, number y => number (x + y)
  | infinity s, infinity t => if s = t then infinity s else nan
  | infinity s, number _ | number _, infinity s => infinity s
  | nan, _ | _, nan => nan

def mul : Extended α → Extended α → Extended α
  | number x, number y => number (x * y)
  | nan, _ | _, nan => nan
  | x, y => if x.isZero || y.isZero then nan else infinity (x.isNegative != y.isNegative)

def div : Extended α → Extended α → Extended α
  | number x, number y =>
      if y ≠ 0 then number (x / y) else if x = 0 then nan else infinity (decide (x < 0))
  | number _, infinity _ => number 0
  | infinity s, number y => infinity (s != decide (y < 0))
  | infinity _, infinity _ | nan, _ | _, nan => nan

def lt : Extended α → Extended α → Bool
  | number x, number y => decide (x < y)
  | infinity s, infinity t => s && !t
  | infinity s, number _ => s
  | number _, infinity t => !t
  | nan, _ | _, nan => false

def le : Extended α → Extended α → Bool
  | number x, number y => decide (x ≤ y)
  | infinity s, infinity t => s || !t
  | infinity s, number _ => s
  | number _, infinity t => !t
  | nan, _ | _, nan => false

def eq : Extended α → Extended α → Bool
  | number x, number y => decide (x = y)
  | infinity s, infinity t => s == t
  | _, _ => false

/-- A function of numbers, with its values at the infinities. -/
def lift (f : α → α) (atInfinity : Bool → Extended α) : Extended α → Extended α
  | number x => number (f x)
  | infinity negative => atInfinity negative
  | nan => nan

instance : Scalar (Extended α) where
  ofNumeral := ofNumeral
  add := add
  sub x y := add x (neg y)
  mul := mul
  div := div
  neg := neg
  lt := lt
  le := le
  eq := eq
  isNaN x := match x with
    | nan => true
    | _ => false
  isInfinite x := match x with
    | infinity _ => true
    | _ => false
  abs := lift (|·|) fun _ => infinity false
  sqrt x := if x.isNegative then nan else lift ExactScalar.sqrt infinity x
  floor := lift ExactScalar.floor infinity
  cos := lift ExactScalar.cos fun _ => nan
  sin := lift ExactScalar.sin fun _ => nan
  pi := number ExactScalar.pi

/-! ## Numbers -/

@[simp] theorem number_add (x y : α) : number x + number y = number (x + y) := rfl

@[simp] theorem number_sub (x y : α) : number x - number y = number (x - y) :=
  congrArg number (sub_eq_add_neg x y).symm

@[simp] theorem number_mul (x y : α) : number x * number y = number (x * y) := rfl

@[simp] theorem lt_number (x y : α) :
    Scalar.lt (number x) (number y) = decide (x < y) := rfl

@[simp] theorem le_number (x y : α) :
    Scalar.le (number x) (number y) = decide (x ≤ y) := rfl

/-- A written decimal number stands for its value. -/
theorem ofNumeral_decimal (digits : Nat) (exponent : Int) :
    Scalar.ofNumeral (.decimal false digits exponent)
      = number ((digits : α) * 10 ^ exponent) := by
  show number (ExactScalar.ofNumeral _) = _
  rw [ExactScalar.ofNumeral_decimal, if_neg Bool.false_ne_true]

@[simp] theorem literal_eq (n : Nat) :
    @OfNat.ofNat (Extended α) n (Scalar.instOfNat n) = number (n : α) := by
  refine (ofNumeral_decimal n 0).trans ?_
  rw [zpow_zero, mul_one]

theorem isFinite_iff {x : Extended α} : Scalar.isFinite x = true ↔ ∃ a, x = number a := by
  cases x with
  | number a => exact ⟨fun _ => ⟨a, rfl⟩, fun _ => rfl⟩
  | infinity s =>
      refine ⟨fun h => ?_, fun ⟨a, ha⟩ => by cases ha⟩
      cases h
  | nan =>
      refine ⟨fun h => ?_, fun ⟨a, ha⟩ => by cases ha⟩
      cases h

/-! ## The unit interval -/

/-- The values of the unit interval are numbers. -/
theorem inUnit_iff {x : Extended α} :
    Scalar.inUnit x = true ↔ ∃ a, x = number a ∧ 0 ≤ a ∧ a ≤ 1 := by
  cases x with
  | number a => simp [Scalar.inUnit]
  | infinity s => cases s <;> simp [Scalar.inUnit, Scalar.le, le]
  | nan => simp [Scalar.inUnit, Scalar.le, le]

theorem inUnit_number {a : α} : Scalar.inUnit (number a) = true ↔ 0 ≤ a ∧ a ≤ 1 := by
  simp [Scalar.inUnit]

open scoped PictureTree.Scalar in
theorem inUnit_zero : Scalar.inUnit (0 : Extended α) = true := by
  rw [literal_eq, inUnit_number]
  simp

open scoped PictureTree.Scalar in
theorem inUnit_one : Scalar.inUnit (1 : Extended α) = true := by
  rw [literal_eq, inUnit_number]
  simp

/-- A decimal fraction with no more digits than places. -/
theorem inUnit_fraction {digits places : Nat} (h : digits ≤ 10 ^ places) :
    Scalar.inUnit (Scalar.ofDecimal digits places : Extended α) = true := by
  have hpower : (0 : α) < 10 ^ places := by positivity
  rw [Scalar.ofDecimal, ofNumeral_decimal, inUnit_number, zpow_neg, zpow_natCast,
    ← div_eq_mul_inv]
  refine ⟨by positivity, (div_le_one hpower).mpr ?_⟩
  exact_mod_cast h

theorem inUnit_clampUnit (a : α) : Scalar.inUnit (Scalar.clampUnit (number a)) = true := by
  simp only [Scalar.clampUnit, literal_eq, lt_number, Nat.cast_zero, Nat.cast_one]
  by_cases hlow : a < 0
  · simp [hlow, inUnit_number]
  · by_cases hhigh : 1 < a
    · simp [hlow, hhigh, inUnit_number]
    · simp [hlow, hhigh, inUnit_number, not_lt.mp hlow, not_lt.mp hhigh]

/-- A mean of two numbers of the unit interval lies there. -/
theorem mean_mem_unit {a b t : α} (ha : 0 ≤ a ∧ a ≤ 1) (hb : 0 ≤ b ∧ b ≤ 1)
    (ht : 0 ≤ t ∧ t ≤ 1) : 0 ≤ a * t + b * (1 - t) ∧ a * t + b * (1 - t) ≤ 1 := by
  have hrest : 0 ≤ 1 - t := sub_nonneg.mpr ht.2
  constructor
  · exact add_nonneg (mul_nonneg ha.1 ht.1) (mul_nonneg hb.1 hrest)
  · calc a * t + b * (1 - t) ≤ 1 * t + 1 * (1 - t) :=
          add_le_add (mul_le_mul_of_nonneg_right ha.2 ht.1)
            (mul_le_mul_of_nonneg_right hb.2 hrest)
      _ = 1 := by ring

open scoped PictureTree.Scalar in
/-- A mean of two values of the unit interval lies there. -/
theorem inUnit_mean {x y t : Extended α} (hx : Scalar.inUnit x = true)
    (hy : Scalar.inUnit y = true) (ht : Scalar.inUnit t = true) :
    Scalar.inUnit (x * t + y * (1 - t)) = true := by
  obtain ⟨a, rfl, ha⟩ := inUnit_iff.mp hx
  obtain ⟨b, rfl, hb⟩ := inUnit_iff.mp hy
  obtain ⟨u, rfl, hu⟩ := inUnit_iff.mp ht
  rw [literal_eq, Nat.cast_one, number_sub, number_mul, number_mul, number_add]
  exact inUnit_number.mpr (mean_mem_unit ha hb hu)

end Extended

end PictureTree
