/-
# `Proofs.Scalar.Doubles` — doubles that stay finite

A double is zero, or a mantissa times a power of two, each with a sign; or it is
infinite, or no number.  A product of finite doubles may be infinite, but not if
one factor lies below a half: its exponent is then below that of the other factor,
and one that has fitted still fits when the mantissa is rounded up.

    signed_mul              a factor below a half keeps doubles finite
    isFinite_left_of_mul    no factor makes a value finite that is not
    isFinite_whole          whole numbers below 2 ^ 53 are finite
    inUnit_clampUnit        what is clamped lies in the unit interval
-/
import Mathlib
import PictureTree.Scalar.Double

open Float.Model (Format totalExponent)
open Float.Model.UnpackedFloat
open scoped PictureTree.Scalar

namespace PictureTree.Double

/-- What a double is made of. -/
def parts (x : Float) : Float.Model.UnpackedFloat := x.toModel.unpack

/-- Zero or finite, with a sign. -/
inductive Signed (s : Sign) : Float.Model.UnpackedFloat → Prop
  | zero : Signed s (.zero s)
  | finite (m : Nat) (e : Int) (hm : 0 < m) : Signed s (.finite s m e hm)

/-- Positive and below a half. -/
def isSmall (x : Float) : Bool :=
  match parts x with
  | .finite .positive m e _ => decide (m.log2 + e + 2 ≤ 0)
  | _ => false

/-! ## Packing -/

/-- The sign is read as it was written, and so is an exponent that fits. -/
theorem signed_unpack_packComponents {s : Sign} {e : BitVec 11} (he : e ≠ -1#11)
    (m : BitVec 52) : Signed s (unpack Format.binary64 (packComponents Format.binary64 s e m)) := by
  unfold unpack
  simp only [unpackExponent_packComponents, unpackMantissa_packComponents,
    unpackSign_packComponents, Sign.ofBitVec_toBitVec, if_neg he]
  split
  · split
    · exact .zero
    · exact .finite ..
  · exact .finite ..

theorem signed_unpack_pack {s : Sign} {m : Nat} {e : Int} (hm : 0 < m) (he : e ≤ 971) :
    Signed s (unpack Format.binary64 (pack Format.binary64 (.finite s m e hm))) := by
  let biased := (e + (1023 : Nat) + (52 : Nat)).toNat
  have hfits : biased < 2047 := by omega
  have hexponent : BitVec.ofNat 11 biased ≠ -1#11 := by
    intro h
    have hnat : biased % 2 ^ 11 = 2047 := congrArg BitVec.toNat h
    omega
  show Signed s (unpack Format.binary64 (if 2 ^ 11 ≤ biased + 1 then _ else if m.log2 + 1 = 53 then
    packComponents _ s (BitVec.ofNat 11 biased) _ else packComponents _ s 0#11 _))
  rw [if_neg (by omega)]
  split
  · exact signed_unpack_packComponents hexponent _
  · exact signed_unpack_packComponents (by decide) _

/-- Mantissas have 53 bits at most, and exponents are bounded. -/
theorem bounds_of_unpack {b : BitVec 64} {s : Sign} {m : Nat} {e : Int} {hm : 0 < m}
    (h : unpack Format.binary64 b = .finite s m e hm) : m.log2 ≤ 52 ∧ e ≤ 971 := by
  have hlog (n : Nat) (hpos : 0 < n) (hlt : n < 2 ^ 53) : n.log2 ≤ 52 := by
    have := (Nat.log2_lt hpos.ne').mpr hlt
    omega
  have hbias : Format.binary64.exponentBias = 1023 := rfl
  have hmantissa : (@unpackMantissa Format.binary64 b).toNat < 2 ^ 52 := BitVec.isLt _
  have hlead : (1#1 ++ @unpackMantissa Format.binary64 b).toNat < 2 ^ 53 := BitVec.isLt _
  have hexponent : (@unpackExponent Format.binary64 b).toNat < 2 ^ 11 := BitVec.isLt _
  unfold unpack at h
  dsimp only at h
  split at h
  · split at h <;> cases h
  · next hne =>
      have hbelow : (@unpackExponent Format.binary64 b).toNat ≠ 2047 :=
        fun heq => hne (BitVec.eq_of_toNat_eq heq)
      split at h
      · next hzero =>
          have hzero : (@unpackExponent Format.binary64 b).toNat = 0 := by
            rw [hzero]
            rfl
          split at h <;> cases h
          exact ⟨hlog _ hm (by omega), by omega⟩
      · cases h
        exact ⟨hlog _ hm hlead, by omega⟩

/-! ## Rounding -/

/-- By how much an exponent is raised to let the mantissa fit. -/
def excess (m : Nat) (e : Int) : Nat :=
  (Format.binary64.targetExponent (totalExponent m e) - e).toNat

/-- The mantissa that is left then, rounded to the nearest one. -/
def rounded (m : Nat) (e : Int) : Nat :=
  ((⟨m, false, false⟩ : ExtendedMantissa) >>> excess m e).roundedMantissa

theorem excess_eq (m : Nat) (e : Int) :
    excess m e = (max (m.log2 + 1 + e - 53) (-1074) - e).toNat := rfl

theorem mantissa_shiftRight (em : ExtendedMantissa) (n : Nat) :
    (em >>> n).mantissa = em.mantissa / 2 ^ n := by
  induction n with
  | zero => exact (Nat.div_one _).symm
  | succ n ih =>
      show (em >>> n).mantissa / 2 = _
      rw [ih, Nat.div_div_eq_div_mul, ← Nat.pow_succ]

/-- Rounding adds one at most. -/
theorem roundedMantissa_le (em : ExtendedMantissa) : em.roundedMantissa ≤ em.mantissa + 1 := by
  obtain ⟨m, roundBit, stickyBit⟩ := em
  show Accuracy.roundToNearestEven m _ ≤ m + 1
  unfold Accuracy.roundToNearestEven
  split <;> omega

/-- A mantissa is rounded to 53 bits, or to the least number with one more. -/
theorem rounded_le (m : Nat) (e : Int) : rounded m e ≤ 2 ^ 53 := by
  let k := excess m e
  have hk : m.log2 ≤ 52 + k := by
    have := excess_eq m e
    omega
  have hkept : m / 2 ^ k < 2 ^ 53 := by
    refine Nat.div_lt_of_lt_mul ?_
    calc m < 2 ^ (m.log2 + 1) := Nat.lt_log2_self
      _ ≤ 2 ^ (k + 53) := Nat.pow_le_pow_right (by decide) (by omega)
      _ = 2 ^ k * 2 ^ 53 := Nat.pow_add ..
  calc rounded m e ≤ ((⟨m, false, false⟩ : ExtendedMantissa) >>> k).mantissa + 1 :=
        roundedMantissa_le _
    _ = m / 2 ^ k + 1 := by rw [mantissa_shiftRight]
    _ ≤ 2 ^ 53 := hkept

/-- A number is rounded to one that fits if its exponent does when the mantissa has been. -/
theorem signed_round_of_le {s : Sign} {m : Nat} {e : Int}
    (h : e + excess m e + excess (rounded m e) (e + excess m e) ≤ 971) :
    Signed s (unpack Format.binary64
      (pack Format.binary64 (roundWithAccuracy Format.binary64 s m e .exact))) := by
  show Signed s (unpack _ (pack _ (if h : _ = 0 then .zero s else .finite s _ _ _)))
  split
  · exact signed_unpack_packComponents (by decide) _
  · exact signed_unpack_pack _ h

/-- A number that has room for one more bit is rounded to one that fits. -/
theorem signed_round {s : Sign} {m : Nat} {e : Int} (he : e ≤ 970) (hm : m.log2 + e ≤ 1022) :
    Signed s (unpack Format.binary64
      (pack Format.binary64 (roundWithAccuracy Format.binary64 s m e .exact))) := by
  have hlog : (rounded m e).log2 ≤ 53 := by
    by_cases hzero : rounded m e = 0
    · simp [hzero]
    · have hle := rounded_le m e
      have hlt := (Nat.log2_lt hzero).mpr (show rounded m e < 2 ^ 54 by omega)
      omega
  have hfirst := excess_eq m e
  -- rounding up may make the exponent grow once more
  have hsecond := excess_eq (rounded m e) (e + excess m e)
  exact signed_round_of_le (by omega)

/-! ## Products -/

theorem mul_comm (x y : Float) : x * y = y * x := by
  have hsign (s t : Sign) : s * t = t * s := by cases s <;> cases t <;> rfl
  have hparts (u v : Float.Model.UnpackedFloat) :
      mul Format.binary64 u v = mul Format.binary64 v u := by
    cases u <;> cases v <;> simp only [mul, hsign, Nat.mul_comm, Int.add_comm]
  show Float.ofModel (.pack (mul _ (parts x) (parts y)))
    = .ofModel (.pack (mul _ (parts y) (parts x)))
  rw [hparts]

theorem log2_mul_le {m n : Nat} (hm : 0 < m) (hn : 0 < n) :
    (m * n).log2 ≤ m.log2 + n.log2 + 1 := by
  refine Nat.le_of_lt_succ ((Nat.log2_lt (Nat.mul_pos hm hn).ne').mpr ?_)
  calc m * n < 2 ^ (m.log2 + 1) * 2 ^ (n.log2 + 1) :=
        Nat.mul_lt_mul'' Nat.lt_log2_self Nat.lt_log2_self
    _ = 2 ^ (m.log2 + n.log2 + 1 + 1) := by ring

/-- A finite double times one that is positive and below a half is finite, and keeps
its sign. -/
theorem signed_mul {s : Sign} {x y : Float} (hx : isSmall x = true) (hy : Signed s (parts y)) :
    Signed s (parts (x * y)) := by
  unfold isSmall at hx
  split at hx
  · next m₁ e₁ hm₁ hparts =>
      have hx : (m₁.log2 : Int) + e₁ + 2 ≤ 0 := of_decide_eq_true hx
      have hsign : Sign.positive * s = s := by cases s <;> rfl
      show Signed s (unpack _ (pack _ (mul Format.binary64 (parts x) (parts y))))
      generalize hy' : parts y = v at hy
      rw [hparts]
      cases hy with
      | zero =>
          rw [mul, hsign]
          exact signed_unpack_packComponents (by decide) _
      | finite m₂ e₂ hm₂ =>
          obtain ⟨hlog, hexponent⟩ := bounds_of_unpack hy'
          have hproduct := log2_mul_le hm₁ hm₂
          rw [mul, hsign]
          exact signed_round (by omega) (by omega)
  · cases hx

theorem log2_mul_two_pow {m : Nat} (hm : 0 < m) (k : Nat) : (m * 2 ^ k).log2 = m.log2 + k := by
  induction k with
  | zero => simp
  | succ k ih =>
      have hdouble : m * 2 ^ (k + 1) = 2 * (m * 2 ^ k) := by ring
      rw [hdouble, Nat.log2_two_mul (Nat.mul_pos hm (Nat.two_pow_pos k)).ne', ih]
      rfl

theorem shiftRight_exact (m k : Nat) :
    ((⟨m * 2 ^ k, false, false⟩ : ExtendedMantissa) >>> k) = ⟨m, false, false⟩ := by
  induction k generalizing m with
  | zero =>
      rw [Nat.pow_zero, Nat.mul_one]
      rfl
  | succ k ih =>
      have hhalf : m * 2 ^ (k + 1) = (2 * m) * 2 ^ k := by ring
      show ((⟨m * 2 ^ (k + 1), false, false⟩ : ExtendedMantissa) >>> k).shiftRightOne = _
      rw [hhalf, ih]
      simp [ExtendedMantissa.shiftRightOne]

/-- One, written with a mantissa of full length. -/
def isOne (x : Float) : Bool :=
  match parts x with
  | .finite .positive m e _ => decide (m = 2 ^ 52 ∧ e = -52)
  | _ => false

/-- A product with one needs no rounding. -/
theorem signed_mul_one {s : Sign} {x y : Float} (hx : Signed s (parts x)) (hy : isOne y = true) :
    Signed s (parts (x * y)) := by
  unfold isOne at hy
  split at hy
  · next m₁ e₁ hm₁ hparts =>
      obtain ⟨rfl, rfl⟩ := of_decide_eq_true hy
      have hsign : s * Sign.positive = s := by cases s <;> rfl
      show Signed s (unpack _ (pack _ (mul Format.binary64 (parts x) (parts y))))
      generalize hx' : parts x = u at hx
      rw [hparts]
      cases hx with
      | zero =>
          rw [mul, hsign]
          exact signed_unpack_packComponents (by decide) _
      | finite m e hm =>
          obtain ⟨hlog, hexponent⟩ := bounds_of_unpack hx'
          have hproduct := log2_mul_two_pow hm 52
          have hfirst := excess_eq (m * 2 ^ 52) (e + -52)
          rw [mul, hsign]
          by_cases hroom : m.log2 + e ≤ 1022
          · exact signed_round (by omega) (by omega)
          · -- the largest exponent with a mantissa of full length: both stay as they are
            have hfull : excess (m * 2 ^ 52) (e + -52) = 52 := by omega
            have hmantissa : rounded (m * 2 ^ 52) (e + -52) = m := by
              rw [rounded, hfull, shiftRight_exact]
              rfl
            have hsecond := excess_eq m (e + -52 + (52 : Nat))
            refine signed_round_of_le ?_
            rw [hmantissa, hfull]
            omega
  · cases hy

/-! ## Finite doubles -/

theorem isFinite_eq (x : Float) : Scalar.isFinite x = (parts x).isFinite := by
  show (!(parts x).isNaN && !(parts x).isInf) = _
  cases parts x <;> rfl

theorem isFinite_iff {x : Float} : Scalar.isFinite x = true ↔ ∃ s, Signed s (parts x) := by
  rw [isFinite_eq]
  cases parts x with
  | zero s => exact ⟨fun _ => ⟨s, .zero⟩, fun _ => rfl⟩
  | finite s m e hm => exact ⟨fun _ => ⟨s, .finite m e hm⟩, fun _ => rfl⟩
  | infinity s => exact ⟨nofun, nofun⟩
  | notANumber => exact ⟨nofun, nofun⟩

/-- What is packed to a finite double is finite. -/
theorem isFinite_of_signed_pack {s : Sign} {u : Float.Model.UnpackedFloat}
    (h : Signed s (unpack Format.binary64 (pack Format.binary64 u))) : u.isFinite = true := by
  cases u with
  | zero | finite => rfl
  | notANumber =>
      rw [pack, unpack_packedNaN] at h
      cases h
  | infinity t =>
      rw [pack, packedInfinity] at h
      unfold unpack at h
      simp only [unpackExponent_packComponents, unpackMantissa_packComponents] at h
      cases h

/-- No product with a factor that is not finite is finite. -/
theorem isFinite_left_of_mul {x y : Float} (h : Scalar.isFinite (x * y) = true) :
    Scalar.isFinite x = true := by
  obtain ⟨s, hs⟩ := isFinite_iff.mp h
  have hproduct : (mul Format.binary64 (parts x) (parts y)).isFinite = true :=
    isFinite_of_signed_pack hs
  rw [isFinite_eq]
  cases hx : parts x with
  | zero | finite => rfl
  | infinity | notANumber =>
      rw [hx] at hproduct
      cases hy : parts y <;> (rw [hy] at hproduct; cases hproduct)

theorem isFinite_mul {x y : Float} (hx : isSmall x = true) (hy : Scalar.isFinite y = true) :
    Scalar.isFinite (x * y) = true := by
  obtain ⟨s, hs⟩ := isFinite_iff.mp hy
  exact isFinite_iff.mpr ⟨s, signed_mul hx hs⟩

/-- Radians are smaller than degrees. -/
theorem isFinite_toRadians {x : Float} (h : Scalar.isFinite x = true) :
    Scalar.isFinite (Scalar.toRadians x) = true := by
  have hsmall : isSmall (Scalar.pi / 180) = true := by decide
  rw [Scalar.toRadians, mul_comm]
  exact isFinite_mul hsmall h

@[simp] theorem isFinite_abs {x : Float} :
    Scalar.isFinite (Scalar.abs x) = true ↔ Scalar.isFinite x = true := by
  have hparts : parts (Scalar.abs x)
      = unpack Format.binary64 (pack Format.binary64 (parts x).abs) := rfl
  have hfinite : (parts x).abs.isFinite = (parts x).isFinite := by
    cases parts x <;> rfl
  constructor
  · intro h
    obtain ⟨s, hs⟩ := isFinite_iff.mp h
    rw [isFinite_eq, ← hfinite]
    exact isFinite_of_signed_pack (hparts ▸ hs)
  · intro h
    obtain ⟨s, hs⟩ := isFinite_iff.mp h
    refine isFinite_iff.mpr ⟨.positive, hparts ▸ ?_⟩
    generalize hx : parts x = u at hs
    cases hs with
    | zero => exact signed_unpack_packComponents (by decide) _
    | finite m e hm => exact signed_unpack_pack hm (bounds_of_unpack hx).2

/-! ## Whole numbers -/

theorem signed_toFloat {n : Nat} (h : n < 2 ^ 64) :
    Signed .positive (parts n.toUInt64.toFloat) := by
  have hn : n.toUInt64.toNat = n := by simpa using Nat.mod_eq_of_lt h
  show Signed _ (unpack _ (pack _
    (Float.Model.UnpackedFloat.normalize Format.binary64 (n.toUInt64.toNat : Int) 0 .positive)))
  rw [hn]
  unfold Float.Model.UnpackedFloat.normalize
  split
  · next hlt =>
      have := Int.compare_eq_lt.mp hlt
      omega
  · exact signed_unpack_packComponents (by decide) _
  · next hgt =>
      have hpos : 0 < n := by
        have := Int.compare_eq_gt.mp hgt
        omega
      let k := (0 - Format.binary64.targetExponent (totalExponent n 0)).toNat
      have hlog : (n * 2 ^ k).log2 = n.log2 + k := log2_mul_two_pow hpos k
      have hbits := (Nat.log2_lt hpos.ne').mpr h
      show Signed _ (unpack _ (pack _ (roundWithAccuracy _ _ (n <<< k) (0 - (k : Int)) .exact)))
      rw [Nat.shiftLeft_eq]
      exact signed_round (by omega) (by omega)

/-- A whole number below `2 ^ 53` is a double. -/
theorem isFinite_whole {n : Nat} (h : n < 2 ^ 53) :
    Scalar.isFinite (Scalar.ofNumeral (.decimal false n 0) : Float) = true := by
  show Scalar.isFinite (ofMagnitude n 0) = true
  unfold ofMagnitude
  split
  · decide
  · rw [if_neg (by decide), if_neg (by omega)]
    show Scalar.isFinite (Float.ofScientific n false 0) = true
    have hone : isOne Float.exactlyRepresentablePowersOfTen[0] = true := by decide
    rw [Float.ofScientific, dif_pos ⟨h, by decide⟩]
    exact isFinite_iff.mpr ⟨_, signed_mul_one (signed_toFloat (by omega)) hone⟩

/-! ## The order of doubles -/

theorem compare_swap (u v : Float.Model.UnpackedFloat) :
    v.compare u = (u.compare v).map Ordering.swap := by
  cases u with
  | zero s =>
      cases v with
      | zero | notANumber => rfl
      | infinity t | finite t => cases t <;> rfl
  | infinity s =>
      cases v with
      | infinity t => cases s <;> cases t <;> rfl
      | zero | finite | notANumber => cases s <;> rfl
  | notANumber => cases v <;> rfl
  | finite s m e hm =>
      cases v with
      | zero | notANumber => cases s <;> rfl
      | infinity t => cases s <;> cases t <;> rfl
      | finite t m' e' hm' =>
          cases s <;> cases t <;> simp [Float.Model.UnpackedFloat.compare, Ordering.swap_then,
            Std.OrientedCmp.eq_swap (a := e), Std.OrientedCmp.eq_swap (a := m)]

theorem lt_eq (x y : Float) : Scalar.lt x y = (parts x).lt (parts y) :=
  Bool.decide_eq_true.trans Bool.decide_eq_true

theorem le_eq (x y : Float) : Scalar.le x y = (parts x).le (parts y) :=
  Bool.decide_eq_true.trans Bool.decide_eq_true

theorem compare_isSome {s t : Sign} {u v : Float.Model.UnpackedFloat} (hu : Signed s u)
    (hv : Signed t v) : (u.compare v).isSome = true := by
  cases hu <;> cases hv <;> cases s <;> cases t <;> rfl

/-- Of two finite doubles, one that does not lie below the other is at least as large. -/
theorem le_of_lt_eq_false {x y : Float} (hx : Scalar.isFinite x = true)
    (hy : Scalar.isFinite y = true) (h : Scalar.lt x y = false) : Scalar.le y x = true := by
  obtain ⟨s, hx⟩ := isFinite_iff.mp hx
  obtain ⟨t, hy⟩ := isFinite_iff.mp hy
  obtain ⟨order, horder⟩ := Option.isSome_iff_exists.mp (compare_isSome hx hy)
  rw [lt_eq, Float.Model.UnpackedFloat.lt, horder] at h
  rw [le_eq, Float.Model.UnpackedFloat.le, compare_swap, horder]
  cases order with
  | lt => cases h
  | eq | gt => rfl

/-- What is clamped lies in the unit interval, unless it is no number. -/
theorem inUnit_clampUnit {x : Float} (h : Scalar.isFinite x = true) :
    Scalar.inUnit (Scalar.clampUnit x) = true := by
  have hzero : Scalar.isFinite (0 : Float) = true := by decide
  have hone : Scalar.isFinite (1 : Float) = true := by decide
  unfold Scalar.clampUnit
  split
  · decide
  · next hlow =>
      split
      · decide
      · next hhigh =>
          rw [Scalar.inUnit, Bool.and_eq_true]
          exact ⟨le_of_lt_eq_false h hzero (Bool.eq_false_of_not_eq_true hlow),
            le_of_lt_eq_false hone h (Bool.eq_false_of_not_eq_true hhigh)⟩

/-- A finite double above zero has a positive sign. -/
theorem signed_of_lt {x : Float} (h : Scalar.isFinite x = true) (hpos : Scalar.lt 0 x = true) :
    Signed .positive (parts x) := by
  obtain ⟨s, hs⟩ := isFinite_iff.mp h
  have hcompare : ((Float.Model.UnpackedFloat.zero .positive).lt (parts x)) = true :=
    (lt_eq 0 x).symm.trans hpos
  generalize parts x = u at hs hcompare
  cases hs with
  | zero => cases hcompare
  | finite m e hm =>
      cases s with
      | positive => exact .finite m e hm
      | negative => cases hcompare

/-- A double with a positive sign is not below zero. -/
theorem le_of_signed {x : Float} (h : Signed .positive (parts x)) : Scalar.le 0 x = true := by
  have hcompare : ((Float.Model.UnpackedFloat.zero .positive).le (parts x)) = true := by
    generalize parts x = u at h
    cases h <;> rfl
  exact (le_eq 0 x).trans hcompare

/-- A length above zero stays one that is not below when it is scaled down. -/
theorem scaled_checked {x y : Float} (hx : isSmall x = true) (hy : Scalar.isFinite y = true)
    (hpos : Scalar.lt 0 y = true) :
    Scalar.isFinite (x * y) = true ∧ Scalar.le 0 (x * y) = true := by
  have hproduct : Signed .positive (parts (x * y)) := signed_mul hx (signed_of_lt hy hpos)
  exact ⟨isFinite_iff.mpr ⟨_, hproduct⟩, le_of_signed hproduct⟩

end PictureTree.Double
