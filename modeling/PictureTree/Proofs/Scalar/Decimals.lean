/-
# `Proofs.Scalar.Decimals` — a written number stands for the nearest double

There are three ways from digits and a power of ten to a double, and all of them round once
(`rounds_ofNumeral`):

    53 bits of digits, powers up to 22    the two are doubles, multiplied or divided
    more of either                        a product or a quotient of whole numbers
    very large or very small              infinity or zero, without any power of ten

With this the number of a literal, read off its digits, is rounded to the double that the
literal stands for (`Literal.rounds_value`).
-/
import PictureTree.Proofs.Numeral.Literals
import PictureTree.Proofs.Scalar.Operations

open Float.Model (Format)
open Float.Model.UnpackedFloat

namespace PictureTree.Double

/-! ## Whole numbers -/

/-- A whole number with 53 bits is a double. -/
theorem exists_value?_eq_natCast {k : ℕ} (hpos : 0 < k) (hk : k < 2 ^ 53) :
    ∃ x, value? x = some (k : ℚ) := by
  let j := 52 - k.log2
  have hlog : k.log2 + j = 52 := by
    have := (Nat.log2_lt hpos.ne').mpr hk
    omega
  have hcanonical : Canonical (k * 2 ^ j) (-j) := by
    refine ⟨?_, by omega, .inr ?_⟩
    · calc k * 2 ^ j < 2 ^ (k.log2 + 1) * 2 ^ j := by
            gcongr
            exact Nat.lt_log2_self
        _ = 2 ^ 53 := by rw [← Nat.pow_add]; congr 1; omega
    · calc 2 ^ 52 = 2 ^ k.log2 * 2 ^ j := by rw [← Nat.pow_add, hlog]
        _ ≤ k * 2 ^ j := by
            gcongr
            exact Nat.log2_self_le hpos.ne'
  have hvalue : withSign .positive (↑(k * 2 ^ j) * (2 : ℚ) ^ (-j : ℤ)) = k := by
    show ↑(k * 2 ^ j) * (2 : ℚ) ^ (-j : ℤ) = k
    rw [zpow_neg, zpow_natCast]
    push_cast
    rw [mul_inv_cancel_right₀ (by positivity)]
  rw [← hvalue]
  exact exists_value?_eq (by positivity) hcanonical (by omega) .positive

theorem value?_toFloat {n : UInt64} (hn : n.toNat < 2 ^ 53) :
    value? n.toFloat = some (n.toNat : ℚ) := by
  have hparts : parts n.toFloat = unpack Format.binary64
      (pack Format.binary64 (normalize Format.binary64 (n.toNat : ℤ) 0 .positive)) := rfl
  have hrounds := rounds_normalize hparts
  rw [zpow_zero, mul_one, Int.cast_natCast] at hrounds
  rcases n.toNat.eq_zero_or_pos with hzero | hpos
  · rw [hzero, Nat.cast_zero] at hrounds ⊢
    exact hrounds.value?_eq (y := 0.0) rfl
  · obtain ⟨y, hy⟩ := exists_value?_eq_natCast hpos hn
    exact hrounds.value?_eq hy

/-- The double is the given whole number. -/
def isWhole (x : Float) (n : ℕ) : Bool :=
  match parts x with
  | .finite .positive m e _ => m * 2 ^ e.toNat == n * 2 ^ (-e).toNat
  | _ => false

theorem value?_of_isWhole {x : Float} {n : ℕ} (h : isWhole x n = true) :
    value? x = some (n : ℚ) := by
  unfold isWhole at h
  split at h
  · next m e hm hparts =>
      have hscaled : (m : ℚ) * 2 ^ e.toNat = n * 2 ^ (-e).toNat := by
        exact_mod_cast beq_iff_eq.mp h
      have hpower : (2 : ℚ) ^ (-e).toNat * 2 ^ e = 2 ^ e.toNat := by
        rw [two_pow_mul_zpow, ← zpow_natCast]
        congr 1
        omega
      rw [value?, hparts]
      show some ((m : ℚ) * 2 ^ e) = some (n : ℚ)
      have hne : (2 : ℚ) ^ (-e).toNat ≠ 0 := by positivity
      refine congrArg some (mul_right_cancel₀ hne ?_)
      rw [← hscaled, ← hpower]
      ring
  · cases h

/-- The powers of ten that are looked up are exact. -/
theorem value?_powerOfTen {k : ℕ} (hk : k < 23) :
    value? Float.exactlyRepresentablePowersOfTen[k] = some (↑(10 ^ k : ℕ) : ℚ) := by
  have hwhole : ∀ i : Fin 23,
      isWhole Float.exactlyRepresentablePowersOfTen[i] (10 ^ i.val) = true := by
    decide +kernel
  exact value?_of_isWhole (hwhole ⟨k, hk⟩)

/-! ## Numbers beyond the doubles -/

theorem two_zpow_le_ten_zpow {k n : ℤ} (hn : 0 ≤ n) (h : k ≤ 3 * n) :
    (2 : ℚ) ^ k ≤ 10 ^ n := by
  calc (2 : ℚ) ^ k ≤ 2 ^ (3 * n) := zpow_le_zpow_right₀ one_le_two h
    _ = 8 ^ n := by rw [zpow_mul]; norm_num
    _ ≤ 10 ^ n := zpow_le_zpow_left₀ hn (by norm_num) (by norm_num)

/-- Numbers with many zeros are infinite. -/
theorem rounds_infinity {digits : ℕ} (hpos : 0 < digits) {exponent : ℤ} (h : 342 ≤ exponent)
    {x : Float} (hx : parts x = .infinity .positive) :
    Rounds (digits * 10 ^ exponent) x := by
  have hnonneg : (0 : ℚ) ≤ digits * 10 ^ exponent := by positivity
  have hbound : bound ≤ digits * 10 ^ exponent := by
    calc bound ≤ 2 ^ 54 * 2 ^ (970 : ℤ) :=
          mul_le_mul_of_nonneg_right (by norm_num) (by positivity)
      _ = 2 ^ (1024 : ℤ) := two_pow_mul_zpow 54 970
      _ ≤ 10 ^ exponent := two_zpow_le_ten_zpow (by omega) (by omega)
      _ ≤ digits * 10 ^ exponent := by
          refine le_mul_of_one_le_left (by positivity) ?_
          exact_mod_cast hpos
  refine .infinite .positive ?_ hx ?_
  · rwa [abs_of_nonneg hnonneg]
  · rw [abs_of_nonneg hnonneg]
    rfl

/-- Numbers up to half the smallest double are zero. -/
theorem rounds_zero_of_le {q : ℚ} (hq : 0 ≤ q) (hle : q ≤ 2 ^ (-1075 : ℤ)) {x : Float}
    (hx : parts x = .zero .positive) : Rounds q x := by
  have hhalf : (2 : ℚ) ^ (-1075 : ℤ) = 1 / 2 * 2 ^ (-1074 : ℤ) := by
    rw [one_div, ← zpow_neg_one, ← zpow_add₀ two_ne_zero]
    rfl
  have hpower : (0 : ℚ) < 2 ^ (-1074 : ℤ) := by positivity
  have hspans : Spans q (-1074) := by
    refine ⟨le_rfl, ?_, .inl rfl⟩
    calc q ≤ 1 / 2 * 2 ^ (-1074 : ℤ) := hhalf ▸ hle
      _ < 2 ^ 53 * 2 ^ (-1074 : ℤ) := by
          gcongr
          norm_num
  have hnearest : NearestWhole (q / 2 ^ (-1074 : ℤ)) 0 := by
    refine ⟨?_, fun _ => rfl⟩
    rw [Nat.cast_zero, sub_zero, abs_of_nonneg (by positivity), div_le_iff₀ hpower]
    exact hhalf ▸ hle
  exact rounds_ofPlaces (s := .positive) hq hspans hnearest
    (hx.trans (unpack_pack_zero .positive).symm)

/-- Numbers with many places before their digits are zero. -/
theorem rounds_zero_of_places {digits places : ℕ} {exponent : ℤ} (hdigits : digits ≤ 10 ^ places)
    (h : places + exponent ≤ -359) {x : Float} (hx : parts x = .zero .positive) :
    Rounds (digits * 10 ^ exponent) x := by
  refine rounds_zero_of_le (by positivity) ?_ hx
  calc (digits : ℚ) * 10 ^ exponent ≤ 10 ^ places * 10 ^ exponent := by
        gcongr
        exact_mod_cast hdigits
    _ = 10 ^ (places + exponent) := by rw [zpow_add₀ (by norm_num), zpow_natCast]
    _ ≤ 10 ^ (-359 : ℤ) := zpow_le_zpow_right₀ (by norm_num) h
    _ ≤ 2 ^ (-1075 : ℤ) := by
        rw [zpow_neg, zpow_neg]
        exact inv_anti₀ (by positivity) (two_zpow_le_ten_zpow (by norm_num) (by norm_num))

/-! ## Decimals -/

section Decimals

variable {digits : ℕ} {exponent : ℤ}

theorem ten_zpow_of_nonneg (h : 0 ≤ exponent) :
    (10 : ℚ) ^ exponent = (10 ^ exponent.toNat : ℕ) := by
  rw [Nat.cast_pow, Nat.cast_ofNat, ← zpow_natCast, Int.toNat_of_nonneg h]

theorem mul_ten_zpow_of_neg (digits : ℕ) (h : exponent < 0) :
    (digits : ℚ) * 10 ^ exponent = digits / (10 ^ (-exponent).toNat : ℕ) := by
  rw [← ten_zpow_of_nonneg (by omega), zpow_neg, div_inv_eq_mul]

/-- A product with a power of ten. -/
theorem rounds_product (hpos : 0 < digits) (h : 0 ≤ exponent) {x : Float}
    (hx : parts x = unpack Format.binary64 (pack Format.binary64 (mul Format.binary64
      (.finite .positive (digits <<< 53) (-53) (by simpa [Nat.pos_iff_ne_zero] using hpos.ne'))
      (.finite .positive (10 ^ exponent.toNat) 0 (by positivity))))) :
    Rounds (digits * 10 ^ exponent) x := by
  have hplace : (-53 : ℤ) + (0 : ℤ) ≤
      lastPlace (digits <<< 53 * 10 ^ exponent.toNat) ((-53 : ℤ) + (0 : ℤ)) := by
    have hfull : 2 ^ 53 ≤ digits <<< 53 * 10 ^ exponent.toNat := by
      rw [Nat.shiftLeft_eq]
      exact (Nat.le_mul_of_pos_left _ hpos).trans (Nat.le_mul_of_pos_right _ (by positivity))
    have hlog := (Nat.le_log2 (by omega)).mpr hfull
    unfold lastPlace
    omega
  have h53 : (2 : ℚ) ^ 53 * 2 ^ (-53 : ℤ) = 1 := two_pow_mul_zpow 53 (-53)
  have hdigits : ((digits <<< 53 : ℕ) : ℚ) * 2 ^ (-53 : ℤ) = digits := by
    rw [Nat.shiftLeft_eq, Nat.cast_mul, Nat.cast_pow, Nat.cast_ofNat, mul_assoc, h53, mul_one]
  have hrounds := rounds_mul_finite hplace hx
  rw [hdigits, zpow_zero, mul_one] at hrounds
  rw [ten_zpow_of_nonneg h]
  exact hrounds

/-- A quotient by a power of ten. -/
theorem rounds_quotient (hpos : 0 < digits) (h : exponent < 0) {x : Float}
    (hx : parts x = unpack Format.binary64 (pack Format.binary64 (div Format.binary64
      (.finite .positive digits 0 hpos)
      (.finite .positive (10 ^ (-exponent).toNat) 0 (by positivity))))) :
    Rounds (digits * 10 ^ exponent) x := by
  have hrounds := rounds_div_finite hx
  rw [zpow_zero, mul_one, mul_one] at hrounds
  rw [mul_ten_zpow_of_neg digits h]
  exact hrounds

/-- The number is computed with all its digits. -/
theorem rounds_ofScientific_slow (hpos : 0 < digits) {x : Float}
    (hx : parts x = unpack Format.binary64
      (pack Format.binary64 (ofScientific Format.binary64 digits exponent))) :
    Rounds (digits * 10 ^ exponent) x := by
  unfold ofScientific at hx
  rw [dif_neg hpos.ne'] at hx
  split at hx
  · next hlarge =>
      have hlarge : (2048 : ℤ) < exponent := hlarge
      exact rounds_infinity hpos (by omega) (hx.trans (unpack_packComponents _ (-1#11) 0#52))
  split at hx
  · next hsmall =>
      have hsmall : exponent < -(2048 + (digits.log2 : ℤ)) := hsmall
      have hdigits : digits ≤ 10 ^ (digits.log2 + 1) :=
        Nat.lt_log2_self.le.trans (Nat.pow_le_pow_left (by decide) _)
      exact rounds_zero_of_places hdigits (by omega) (hx.trans (unpack_pack_zero _))
  split at hx
  · next h => exact rounds_product hpos h hx
  · next h => exact rounds_quotient hpos (by omega) hx

/-- Digits and power of ten are doubles, and only their product or quotient is rounded. -/
theorem rounds_ofScientific_fast (hpos : 0 < digits) (hdigits : digits < 2 ^ 53)
    (hsmall : exponent.natAbs < 23) :
    Rounds (digits * 10 ^ exponent)
      (Float.ofScientific digits (exponent < 0) exponent.natAbs) := by
  have hmod : digits.toUInt64.toNat = digits := by
    simpa using Nat.mod_eq_of_lt (show digits < 2 ^ 64 by omega)
  have hwhole : value? digits.toUInt64.toFloat = some (digits : ℚ) := by
    rw [value?_toFloat (by rwa [hmod]), hmod]
  have hpower := value?_powerOfTen hsmall
  rw [Float.ofScientific, dif_pos ⟨hdigits, Nat.le_of_lt_succ hsmall⟩]
  by_cases hneg : exponent < 0
  · have habs : exponent.natAbs = (-exponent).toNat := by omega
    rw [mul_ten_zpow_of_neg digits hneg, ← habs]
    simp only [hneg, decide_true, if_true]
    exact rounds_div hwhole hpower (by positivity)
  · have habs : exponent.natAbs = exponent.toNat := by omega
    rw [ten_zpow_of_nonneg (not_lt.mp hneg), ← habs]
    simp only [hneg, decide_false, Bool.false_eq_true, if_false]
    exact rounds_mul hwhole hpower

theorem rounds_ofScientific (hpos : 0 < digits) :
    Rounds (digits * 10 ^ exponent)
      (Float.ofScientific digits (exponent < 0) exponent.natAbs) := by
  by_cases hfast : digits < 2 ^ 53 ∧ exponent.natAbs ≤ 22
  · exact rounds_ofScientific_fast hpos hfast.1 (Nat.lt_succ_of_le hfast.2)
  · rw [Float.ofScientific, dif_neg hfast]
    have hexponent : (if decide (exponent < 0) = true then Int.negOfNat exponent.natAbs
        else Int.ofNat exponent.natAbs) = exponent := by
      split
      · next h =>
          have h : exponent < 0 := of_decide_eq_true h
          rw [Int.negOfNat_eq]
          show -(exponent.natAbs : ℤ) = exponent
          omega
      · next h =>
          have h : ¬ exponent < 0 := fun hneg => h (decide_eq_true hneg)
          show (exponent.natAbs : ℤ) = exponent
          omega
    rw [hexponent]
    exact rounds_ofScientific_slow hpos rfl

/-- A magnitude is the nearest double to what its digits write. -/
theorem rounds_ofMagnitude (digits : ℕ) (exponent : ℤ) :
    Rounds (digits * 10 ^ exponent) (ofMagnitude digits exponent) := by
  have hzero : parts 0.0 = .zero .positive := rfl
  unfold ofMagnitude
  split
  · next h =>
      rw [h, Nat.cast_zero, zero_mul]
      exact rounds_zero hzero
  next hne =>
  have hpos := Nat.pos_of_ne_zero hne
  split
  · have hinfinite : parts (infinity false) = .infinity .positive := rfl
    exact rounds_infinity hpos (by omega) hinfinite
  split
  · next hsmall =>
      have hdigits : digits ≤ 10 ^ (digits.log2 / 3 + 1) := by
        calc digits ≤ 2 ^ (digits.log2 + 1) := Nat.lt_log2_self.le
          _ ≤ 2 ^ (3 * (digits.log2 / 3 + 1)) := Nat.pow_le_pow_right two_pos (by omega)
          _ = 8 ^ (digits.log2 / 3 + 1) := Nat.pow_mul ..
          _ ≤ 10 ^ (digits.log2 / 3 + 1) := Nat.pow_le_pow_left (by decide) _
      exact rounds_zero_of_places hdigits (by omega) hzero
  · exact rounds_ofScientific hpos

/-- A written decimal number stands for the double that it is rounded to. -/
theorem rounds_ofNumeral (negative : Bool) (digits : ℕ) (exponent : ℤ) :
    Rounds (if negative then -(digits * 10 ^ exponent) else digits * 10 ^ exponent)
      (Scalar.ofNumeral (.decimal negative digits exponent)) := by
  have h := rounds_ofMagnitude digits exponent
  cases negative with
  | false => exact h
  | true => exact h.neg

/-- Whole numbers with 53 bits are written exactly. -/
theorem value?_literal {n : ℕ} (hpos : 0 < n) (hn : n < 2 ^ 53) :
    value? (@OfNat.ofNat Float n (Scalar.instOfNat n)) = some (n : ℚ) := by
  obtain ⟨y, hy⟩ := exists_value?_eq_natCast hpos hn
  have hrounds := rounds_ofNumeral false n 0
  rw [if_neg Bool.false_ne_true, zpow_zero, mul_one] at hrounds
  exact hrounds.value?_eq hy

end Decimals

end PictureTree.Double

namespace PictureTree.Numeral

/-! ## Literals -/

theorem ofDigits_append (ds fs : List Char) :
    ofDigits (ds ++ fs) = ofDigits ds * 10 ^ fs.length + ofDigits fs := by
  have hfold : ∀ (fs : List Char) (n : ℕ), fs.foldl (fun n c => 10 * n + digit c) n
      = n * 10 ^ fs.length + ofDigits fs := by
    intro fs
    induction fs with
    | nil => intro n; simp [ofDigits]
    | cons c fs ih =>
        intro n
        have hcons : ofDigits (c :: fs) = (10 * 0 + digit c) * 10 ^ fs.length + ofDigits fs := ih _
        rw [List.foldl_cons, ih, hcons, List.length_cons, pow_succ]
        ring
  rw [ofDigits, List.foldl_append, hfold]
  rfl

namespace Literal

/-- The number that the digits of a literal write. -/
def magnitude (l : Literal) : ℚ := ofDigits l.whole + ofDigits l.fraction / 10 ^ l.fraction.length

/-- The number that a literal writes, as a fraction. -/
def value (l : Literal) : ℚ := if l.negative then -l.magnitude else l.magnitude

theorem magnitude_eq (l : Literal) :
    l.magnitude = ofDigits (l.whole ++ l.fraction) * 10 ^ (-(l.fraction.length : ℤ)) := by
  rw [ofDigits_append, zpow_neg, zpow_natCast, magnitude]
  push_cast
  field_simp

/-- A literal stands for the double that its value is rounded to. -/
theorem rounds_value (l : Literal) : Double.Rounds l.value (Scalar.ofNumeral l.numeral) := by
  rw [value, magnitude_eq]
  exact Double.rounds_ofNumeral _ _ _

end Literal

end PictureTree.Numeral
