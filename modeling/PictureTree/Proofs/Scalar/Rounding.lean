/-
# `Proofs.Scalar.Rounding` — the nearest double

A number that is no double is rounded: to the nearest double, and of two that are equally near
to the one whose last bit is zero.  A number from `bound` on is rounded to infinity.  `Rounds`
says this of a number and a double, without a word on how the double is found.

It is found by shifting.  A mantissa is moved to the last place that a double keeps of it, and
of what is shifted out two bits remain:

    round bit     the highest of these bits
    sticky bit    whether any of the others is set

They tell on which side of the half the rest lies (`Locates.shiftRight`), which is all that
rounding to a whole number asks (`Locates.nearestWhole`).  The nearest multiple of the last
place is a nearest double, since doubles that are no multiples of it are all smaller
(`NearestWhole.le_abs_sub_double`); and it is packed as it is, but for a mantissa that has been
rounded up to one more bit (`value?_ofPlaces`).
-/
import PictureTree.Proofs.Scalar.Doubles

open Float.Model (Format)
open Float.Model.UnpackedFloat

namespace PictureTree.Double

/-! ## Whole numbers -/

/-- What is said about the part of a number behind its mantissa. -/
def Describes : Accuracy → ℚ → Prop
  | .exact, f => f = 0
  | .inexact .lt, f => 0 < f ∧ f < 1 / 2
  | .inexact .eq, f => f = 1 / 2
  | .inexact .gt, f => 1 / 2 < f ∧ f < 1

theorem Describes.bounds {a : Accuracy} {f : ℚ} (h : Describes a f) : 0 ≤ f ∧ f < 1 := by
  cases a with
  | exact =>
      have hf : f = 0 := h
      norm_num [hf]
  | inexact order =>
      cases order with
      | lt => exact ⟨h.1.le, h.2.trans one_half_lt_one⟩
      | eq =>
          have hf : f = 1 / 2 := h
          norm_num [hf]
      | gt => exact ⟨one_half_pos.le.trans h.1.le, h.2⟩

/-- What is behind the mantissa is halved together with its last bit, and the two residual bits
are joined. -/
theorem Describes.halve {m m' : ℕ} {roundBit stickyBit : Bool} {f : ℚ}
    (h : Describes (ExtendedMantissa.accuracy ⟨m, roundBit, stickyBit⟩) f) {bit : ℕ}
    (hbit : bit = 0 ∨ bit = 1) :
    Describes (ExtendedMantissa.accuracy ⟨m', bit != 0, roundBit || stickyBit⟩)
      ((bit + f) / 2) := by
  obtain ⟨hzero, hone⟩ := h.bounds
  cases hbits : roundBit || stickyBit with
  | false =>
      obtain ⟨rfl, rfl⟩ := Bool.or_eq_false_iff.mp hbits
      have hf : f = 0 := h
      rcases hbit with rfl | rfl
      · show (_ : ℚ) = 0
        norm_num [hf]
      · show (_ : ℚ) = 1 / 2
        norm_num [hf]
  | true =>
      have hpos : 0 < f := by
        cases roundBit <;> cases stickyBit
        · cases hbits
        · exact h.1
        · exact one_half_pos.trans_eq h.symm
        · exact one_half_pos.trans h.1
      rcases hbit with rfl | rfl
      · show 0 < _ ∧ _ < 1 / 2
        constructor <;> push_cast <;> linarith
      · show 1 / 2 < _ ∧ _ < 1
        constructor <;> push_cast <;> linarith

/-- A mantissa with its residual bits stands for a number. -/
def Locates (em : ExtendedMantissa) (y : ℚ) : Prop := Describes em.accuracy (y - em.mantissa)

namespace Locates

theorem ofMantissaAndAccuracy {m : ℕ} {a : Accuracy} {y : ℚ} (h : Describes a (y - m)) :
    Locates (.ofMantissaAndAccuracy m a) y := by
  cases a with
  | exact => exact h
  | inexact order => cases order <;> exact h

/-- The last bit is the round bit then, and what was behind it is only known to be nothing or
something. -/
theorem shiftRightOne {em : ExtendedMantissa} {y : ℚ} (h : Locates em y) :
    Locates em.shiftRightOne (y / 2) := by
  obtain ⟨m, roundBit, stickyBit⟩ := em
  have hm : (m : ℚ) = 2 * ↑(m / 2) + ↑(m % 2) := by exact_mod_cast (Nat.div_add_mod m 2).symm
  have hrest : y / 2 - ↑(m / 2) = (↑(m % 2) + (y - m)) / 2 := by
    rw [hm]
    ring
  show Describes (ExtendedMantissa.accuracy ⟨m / 2, m % 2 != 0, roundBit || stickyBit⟩)
    (y / 2 - ↑(m / 2))
  rw [hrest]
  exact Describes.halve h (Nat.mod_two_eq_zero_or_one m)

theorem shiftRight {em : ExtendedMantissa} {y : ℚ} (h : Locates em y) (n : ℕ) :
    Locates (em >>> n) (y / 2 ^ n) := by
  induction n with
  | zero =>
      rw [pow_zero, div_one]
      exact h
  | succ n ih =>
      rw [pow_succ, ← div_div]
      exact ih.shiftRightOne

end Locates

/-- The whole number nearest to a number, and of two equally near ones the even one. -/
structure NearestWhole (y : ℚ) (n : ℕ) : Prop where
  near : |y - n| ≤ 1 / 2
  even : |y - n| = 1 / 2 → n % 2 = 0

theorem Describes.nearestWhole {a : Accuracy} {m : ℕ} {y : ℚ} (h : Describes a (y - m)) :
    NearestWhole y (a.roundToNearestEven m) := by
  cases a with
  | exact =>
      have hy : y - m = 0 := h
      constructor <;> simp [Accuracy.roundToNearestEven, hy]
  | inexact order =>
      cases order with
      | lt =>
          have habs : |y - m| < 1 / 2 := abs_lt.mpr ⟨by linarith [h.1], h.2⟩
          exact ⟨habs.le, fun heq => (habs.ne heq).elim⟩
      | eq =>
          have hy : y - m = 1 / 2 := h
          have hup : y - ↑(m + m % 2) = 1 / 2 - ↑(m % 2) := by
            push_cast
            linarith
          refine ⟨?_, fun _ => ?_⟩
          · show |y - ↑(m + m % 2)| ≤ 1 / 2
            rw [hup]
            rcases Nat.mod_two_eq_zero_or_one m with hbit | hbit <;> rw [hbit] <;> norm_num
          · show (m + m % 2) % 2 = 0
            omega
      | gt =>
          have habs : |y - ↑(m + 1)| < 1 / 2 := by
            push_cast
            exact abs_lt.mpr ⟨by linarith [h.1], by linarith [h.2]⟩
          exact ⟨habs.le, fun heq => (habs.ne heq).elim⟩

theorem Locates.nearestWhole {em : ExtendedMantissa} {y : ℚ} (h : Locates em y) :
    NearestWhole y em.roundedMantissa :=
  Describes.nearestWhole h

/-- No whole number is nearer, and one that is as near leaves the even one. -/
theorem NearestWhole.le_abs_sub {y : ℚ} {n : ℕ} (h : NearestWhole y n) (k : ℕ) :
    |y - n| ≤ |y - k| ∧ (|y - n| = |y - k| → k = n ∨ n % 2 = 0) := by
  by_cases hk : k = n
  · subst hk
    exact ⟨le_rfl, fun _ => .inl rfl⟩
  · have hapart : (1 : ℚ) ≤ |(k : ℚ) - n| := by
      have hne : (k : ℤ) - n ≠ 0 := sub_ne_zero.mpr (Int.ofNat_inj.not.mpr hk)
      exact_mod_cast Int.one_le_abs hne
    have hfar : 1 / 2 ≤ |y - k| := by
      have htriangle : |(k : ℚ) - n| ≤ |(k : ℚ) - y| + |y - n| := abs_sub_le _ _ _
      rw [abs_sub_comm (k : ℚ) y] at htriangle
      linarith [h.near]
    refine ⟨h.near.trans hfar, fun heq => .inr (h.even ?_)⟩
    exact le_antisymm h.near (heq ▸ hfar)

/-! ## Places -/

/-- The last place that a double keeps of `m * 2 ^ e`. -/
def lastPlace (m : ℕ) (e : ℤ) : ℤ := max (m.log2 + 1 + e - 53) (-1074)

/-- A number of which `2 ^ e` is the last place that a double keeps. -/
structure Spans (x : ℚ) (e : ℤ) : Prop where
  least : -1074 ≤ e
  below : x < 2 ^ 53 * 2 ^ e
  above : e = -1074 ∨ 2 ^ 52 * 2 ^ e ≤ x

theorem two_pow_mul_zpow (n : ℕ) (e : ℤ) : (2 : ℚ) ^ n * 2 ^ e = 2 ^ (n + e) := by
  rw [zpow_add₀ two_ne_zero, zpow_natCast]

/-- What is behind the mantissa does not change the last place. -/
theorem spans_lastPlace {m : ℕ} {e : ℤ} {f : ℚ} (hf : 0 ≤ f ∧ f < 1) (h : 0 < m ∨ e ≤ -1074) :
    Spans ((m + f) * 2 ^ e) (lastPlace m e) := by
  have hpower : (0 : ℚ) < 2 ^ e := by positivity
  have hupper : (m + f) * 2 ^ e < 2 ^ (m.log2 + 1 + e : ℤ) := by
    have hm : (m : ℚ) + 1 ≤ 2 ^ (m.log2 + 1) := by exact_mod_cast Nat.lt_log2_self (n := m)
    calc (m + f) * 2 ^ e < (m + 1) * 2 ^ e := by gcongr; exact hf.2
      _ ≤ 2 ^ (m.log2 + 1) * 2 ^ e := by gcongr
      _ = 2 ^ (m.log2 + 1 + e : ℤ) := by rw [two_pow_mul_zpow]; push_cast; rfl
  refine ⟨le_max_right _ _, ?_, ?_⟩
  · refine hupper.trans_le ?_
    rw [two_pow_mul_zpow]
    refine zpow_le_zpow_right₀ one_le_two ?_
    have := le_max_left ((m.log2 : ℤ) + 1 + e - 53) (-1074)
    unfold lastPlace
    push_cast
    omega
  · by_cases hlow : lastPlace m e = -1074
    · exact .inl hlow
    · have hplace : lastPlace m e = m.log2 + 1 + e - 53 := by
        unfold lastPlace at hlow ⊢
        omega
      have hm : m ≠ 0 := by
        rintro rfl
        rw [lastPlace, Nat.log2_zero] at hlow
        omega
      right
      calc (2 : ℚ) ^ 52 * 2 ^ lastPlace m e = 2 ^ m.log2 * 2 ^ e := by
            rw [two_pow_mul_zpow, two_pow_mul_zpow, hplace]
            congr 1
            push_cast
            ring
        _ ≤ m * 2 ^ e := by
            gcongr
            exact_mod_cast Nat.log2_self_le hm
        _ ≤ (m + f) * 2 ^ e := by
            gcongr
            linarith [hf.1]

/-- A multiple of the last place that is nearest to a number is a nearest double. -/
theorem NearestWhole.le_abs_sub_double {x : ℚ} {e : ℤ} {n : ℕ} (hspans : Spans x e)
    (h : NearestWhole (x / 2 ^ e) n) {k : ℕ} {d : ℤ} (hk : k < 2 ^ 53) (hd : -1074 ≤ d) :
    |x - n * 2 ^ e| ≤ |x - k * 2 ^ d| ∧
      (|x - n * 2 ^ e| = |x - k * 2 ^ d| → (k * 2 ^ d : ℚ) = n * 2 ^ e ∨ n % 2 = 0) := by
  have hpower : (0 : ℚ) < 2 ^ e := by positivity
  have hscale (z : ℚ) : |x - z * 2 ^ e| = |x / 2 ^ e - z| * 2 ^ e := by
    have hz : x - z * 2 ^ e = (x / 2 ^ e - z) * 2 ^ e := by field_simp
    rw [hz, abs_mul, abs_of_pos hpower]
  by_cases hplace : e ≤ d
  · -- the other double is a multiple of the last place too
    obtain ⟨j, rfl⟩ := Int.le.dest hplace
    have hmultiple : (k * 2 ^ (e + j) : ℚ) = ↑(k * 2 ^ j) * 2 ^ e := by
      rw [zpow_add₀ two_ne_zero, zpow_natCast]
      push_cast
      ring
    obtain ⟨hle, heven⟩ := h.le_abs_sub (k * 2 ^ j)
    rw [hmultiple, hscale, hscale]
    refine ⟨mul_le_mul_of_nonneg_right hle hpower.le, fun heq => ?_⟩
    exact (heven (mul_right_cancel₀ hpower.ne' heq)).imp (fun hj => by rw [hj]) id
  · -- the other double is below all numbers with this last place
    have hfull : 2 ^ 52 * 2 ^ e ≤ x := hspans.above.resolve_left (by omega)
    have hbelow : (k * 2 ^ d : ℚ) < 2 ^ 52 * 2 ^ e := by
      calc (k * 2 ^ d : ℚ) < 2 ^ 53 * 2 ^ d := by
            gcongr
            exact_mod_cast hk
        _ = 2 ^ 52 * 2 ^ (d + 1) := by rw [zpow_add_one₀ two_ne_zero]; ring
        _ ≤ 2 ^ 52 * 2 ^ e := by
            gcongr
            · exact one_le_two
            · omega
    have hlt : |x - n * 2 ^ e| < |x - k * 2 ^ d| := by
      have hfirst : |x - n * 2 ^ e| ≤ |x - 2 ^ 52 * 2 ^ e| := by
        have hle := (h.le_abs_sub (2 ^ 52)).1
        rw [hscale, hscale]
        exact_mod_cast mul_le_mul_of_nonneg_right hle hpower.le
      refine hfirst.trans_lt ?_
      rw [abs_of_nonneg (sub_nonneg.mpr hfull), abs_of_pos (by linarith)]
      linarith
    exact ⟨hlt.le, fun heq => (hlt.ne heq).elim⟩

/-- The nearest multiple has 53 bits at most, or is the least number with one more. -/
theorem NearestWhole.le_two_pow {x : ℚ} {e : ℤ} {n : ℕ} (hspans : Spans x e)
    (h : NearestWhole (x / 2 ^ e) n) : n ≤ 2 ^ 53 := by
  have hbelow : x / 2 ^ e < 2 ^ 53 := (div_lt_iff₀ (by positivity)).mpr hspans.below
  have hnear := (abs_le.mp h.near).1
  by_contra hlarge
  have hn : (2 : ℚ) ^ 53 + 1 ≤ n := by exact_mod_cast Nat.lt_of_not_le hlarge
  linarith

/-- A rounded mantissa has a full length unless the last place is the lowest. -/
theorem NearestWhole.two_pow_le {x : ℚ} {e : ℤ} {n : ℕ} (hspans : Spans x e)
    (h : NearestWhole (x / 2 ^ e) n) (he : e ≠ -1074) : 2 ^ 52 ≤ n := by
  have habove : 2 ^ 52 ≤ x / 2 ^ e :=
    (le_div_iff₀ (by positivity)).mpr (hspans.above.resolve_left he)
  have hnear := (abs_le.mp h.near).2
  by_contra hsmall
  have hn : (n : ℚ) + 1 ≤ 2 ^ 52 := by exact_mod_cast Nat.lt_of_not_le hsmall
  linarith

/-! ## Rounding -/

/-- `n` times the last place, with a mantissa of 53 bits. -/
def ofPlaces (s : Sign) (n : ℕ) (e : ℤ) : Float.Model.UnpackedFloat :=
  if h : n = 0 then .zero s
  else if n < 2 ^ 53 then .finite s n e (Nat.pos_of_ne_zero h)
  else .finite s (2 ^ 52) (e + 1) (by decide)

theorem shiftToTargetExponent_eq (m : ℕ) (e : ℤ) (a : Accuracy) :
    shiftToTargetExponent Format.binary64 m e a =
      (ExtendedMantissa.ofMantissaAndAccuracy m a >>> (lastPlace m e - e).toNat,
        e + ((lastPlace m e - e).toNat : ℤ)) := rfl

/-- A shifted mantissa with its exponent. -/
def ofShifted (s : Sign) (r : ExtendedMantissa × ℤ) : Float.Model.UnpackedFloat :=
  if h : r.1.mantissa = 0 then .zero s else .finite s r.1.mantissa r.2 (Nat.pos_of_ne_zero h)

/-- A rounded mantissa that fits is not shifted again, and the least one that does not fit is
shifted by one place. -/
theorem ofShifted_eq_ofPlaces {s : Sign} {n : ℕ} {e : ℤ} (hn : n ≤ 2 ^ 53) (he : -1074 ≤ e) :
    ofShifted s (shiftToTargetExponent Format.binary64 n e .exact) = ofPlaces s n e := by
  rw [shiftToTargetExponent_eq]
  rcases hn.lt_or_eq with hlt | rfl
  · have hlog : n.log2 ≤ 52 := by
      by_cases hzero : n = 0
      · simp [hzero]
      · have := (Nat.log2_lt hzero).mpr hlt
        omega
    have hshift : (lastPlace n e - e).toNat = 0 := by
      unfold lastPlace
      omega
    simp only [hshift, Nat.cast_zero, add_zero, ofPlaces, hlt, if_true]
    rfl
  · have hshift : (lastPlace (2 ^ 53) e - e).toNat = 1 := by
      unfold lastPlace
      rw [Nat.log2_two_pow]
      omega
    rw [hshift]
    rfl

theorem exists_roundWithAccuracy_eq {s : Sign} {m : ℕ} {e : ℤ} {a : Accuracy} {f : ℚ}
    (hf : Describes a f) (he : e ≤ lastPlace m e) (h : 0 < m ∨ e ≤ -1074) :
    ∃ n, NearestWhole ((m + f) * 2 ^ e / 2 ^ lastPlace m e) n ∧
      roundWithAccuracy Format.binary64 s m e a = ofPlaces s n (lastPlace m e) := by
  have hlocates : Locates (.ofMantissaAndAccuracy m a) (m + f) :=
    .ofMantissaAndAccuracy (by rwa [add_sub_cancel_left])
  have hnearest := (hlocates.shiftRight (lastPlace m e - e).toNat).nearestWhole
  have hscale : ((m : ℚ) + f) / 2 ^ (lastPlace m e - e).toNat
      = (m + f) * 2 ^ e / 2 ^ lastPlace m e := by
    have hpower : (2 : ℚ) ^ lastPlace m e = 2 ^ (lastPlace m e - e).toNat * 2 ^ e := by
      rw [two_pow_mul_zpow]
      congr 1
      omega
    rw [hpower]
    field_simp
  rw [hscale] at hnearest
  refine ⟨_, hnearest, ?_⟩
  have hplace : e + ((lastPlace m e - e).toNat : ℤ) = lastPlace m e := by omega
  have hspans := spans_lastPlace hf.bounds h
  rw [← ofShifted_eq_ofPlaces (hnearest.le_two_pow hspans) hspans.least]
  show ofShifted s (shiftToTargetExponent _ _ (e + ((lastPlace m e - e).toNat : ℤ)) _) = _
  rw [hplace]
  rfl

/-! ## Packing -/

/-- A mantissa of 53 bits, and a full one unless the last place is the lowest. -/
structure Canonical (m : ℕ) (e : ℤ) : Prop where
  fits : m < 2 ^ 53
  least : -1074 ≤ e
  full : e = -1074 ∨ 2 ^ 52 ≤ m

/-- The leading bit is not stored. -/
theorem toNat_leading (m : BitVec 52) : (1#1 ++ m).toNat = 2 ^ 52 + m.toNat := by
  rw [BitVec.toNat_append]
  exact (Nat.shiftLeft_add_eq_or_of_lt m.isLt 1).symm

theorem canonical_of_unpack {b : BitVec 64} {s : Sign} {m : ℕ} {e : ℤ} {hm : 0 < m}
    (h : unpack Format.binary64 b = .finite s m e hm) : Canonical m e := by
  have hbias : Format.binary64.exponentBias = 1023 := rfl
  have hmantissa : (@unpackMantissa Format.binary64 b).toNat < 2 ^ 52 := BitVec.isLt _
  unfold unpack at h
  dsimp only at h
  split at h
  · split at h <;> cases h
  · split at h
    · next hzero =>
        have hzero : (@unpackExponent Format.binary64 b).toNat = 0 := by
          rw [hzero]
          rfl
        split at h <;> cases h
        exact ⟨by omega, by omega, .inl (by omega)⟩
    · next hne =>
        have hpos : (@unpackExponent Format.binary64 b).toNat ≠ 0 :=
          fun heq => hne (BitVec.eq_of_toNat_eq heq)
        cases h
        have hlead : (1#1 ++ @unpackMantissa Format.binary64 b).toNat < 2 ^ 53 := BitVec.isLt _
        refine ⟨hlead, by omega, .inr ?_⟩
        exact (toNat_leading _).ge.trans' (Nat.le_add_right _ _)

theorem unpack_packComponents (s : Sign) (e : BitVec 11) (m : BitVec 52) :
    unpack Format.binary64 (packComponents Format.binary64 s e m) =
      if e = -1#11 then (if m = 0#52 then .infinity s else .notANumber)
      else if e = 0#11 then
        if h : m = 0#52 then .zero s
        else .finite s m.toNat (-1074) (by simpa [BitVec.toNat_pos, BitVec.pos_iff_ne_zero])
      else .finite s (1#1 ++ m).toNat (e.toNat - 1075) (by rw [toNat_leading]; omega) := by
  unfold unpack
  simp only [unpackExponent_packComponents, unpackMantissa_packComponents,
    unpackSign_packComponents, Sign.ofBitVec_toBitVec]
  split
  · rfl
  · split
    · next hzero =>
        subst hzero
        rfl
    · rfl

theorem unpack_pack {s : Sign} {m : ℕ} {e : ℤ} {hm : 0 < m} (h : Canonical m e) (he : e ≤ 971) :
    unpack Format.binary64 (pack Format.binary64 (.finite s m e hm)) = .finite s m e hm := by
  obtain ⟨hfits, hleast, hfull⟩ := h
  let biased := (e + (1023 : Nat) + (52 : Nat)).toNat
  show unpack Format.binary64 (if 2 ^ 11 ≤ biased + 1 then _ else if m.log2 + 1 = 53 then
    packComponents _ s (BitVec.ofNat 11 biased) (BitVec.ofNat 52 m)
      else packComponents _ s 0#11 (BitVec.ofNat 52 m)) = _
  rw [if_neg (by omega)]
  by_cases hnormal : 2 ^ 52 ≤ m
  · have hlog : m.log2 = 52 := (Nat.log2_eq_iff hm.ne').mpr ⟨hnormal, hfits⟩
    have hbiased : (BitVec.ofNat 11 biased).toNat = biased := by
      rw [BitVec.toNat_ofNat]
      omega
    have hinfinite : BitVec.ofNat 11 biased ≠ -1#11 := by
      intro heq
      have : biased = 2047 := hbiased.symm.trans (congrArg BitVec.toNat heq)
      omega
    have hsubnormal : BitVec.ofNat 11 biased ≠ 0#11 := by
      intro heq
      have : biased = 0 := hbiased.symm.trans (congrArg BitVec.toNat heq)
      omega
    have hmantissa : (1#1 ++ BitVec.ofNat 52 m).toNat = m := by
      rw [toNat_leading, BitVec.toNat_ofNat]
      omega
    rw [hlog, if_pos rfl, unpack_packComponents, if_neg hinfinite, if_neg hsubnormal]
    simp only [hmantissa, hbiased]
    congr 1
    omega
  · have hlow : e = -1074 := hfull.resolve_right hnormal
    have hmantissa : (BitVec.ofNat 52 m).toNat = m := by
      rw [BitVec.toNat_ofNat]
      exact Nat.mod_eq_of_lt (Nat.lt_of_not_le hnormal)
    have hlog : m.log2 + 1 ≠ 53 := by
      have := (Nat.log2_lt hm.ne').mpr (Nat.lt_of_not_le hnormal)
      omega
    have hzero : BitVec.ofNat 52 m ≠ 0#52 := by
      intro heq
      have : m = 0 := hmantissa.symm.trans (congrArg BitVec.toNat heq)
      omega
    rw [if_neg hlog, unpack_packComponents, if_neg (by decide), if_pos rfl, dif_neg hzero]
    simp only [hmantissa, hlow]

/-- A number with a greater exponent is packed as infinity. -/
theorem unpack_pack_of_lt {s : Sign} {m : ℕ} {e : ℤ} {hm : 0 < m} (he : 971 < e) :
    unpack Format.binary64 (pack Format.binary64 (.finite s m e hm)) = .infinity s := by
  let biased := (e + (1023 : Nat) + (52 : Nat)).toNat
  show unpack Format.binary64 (if 2 ^ 11 ≤ biased + 1 then packedInfinity _ s else _) = _
  rw [if_pos (by omega)]
  exact (unpack_packComponents s (-1#11) 0#52).trans rfl

/-! ## The nearest double -/

/-- A number with a sign before it. -/
def withSign : Sign → ℚ → ℚ
  | .positive, x => x
  | .negative, x => -x

/-- The number that a finite double is. -/
def valueOf? : Float.Model.UnpackedFloat → Option ℚ
  | .zero _ => some 0
  | .finite s m e _ => some (withSign s (m * 2 ^ e))
  | .infinity _ | .notANumber => none

def value? (x : Float) : Option ℚ := valueOf? (parts x)

/-- The last bit of the mantissa is zero. -/
def isEven (x : Float) : Bool :=
  match parts x with
  | .finite _ m _ _ => m % 2 == 0
  | _ => true

/-- Half way between the largest double and the next power of two, `2 ^ 1024`. -/
def bound : ℚ := (2 ^ 54 - 1) * 2 ^ (970 : ℤ)

/-- A double is what a number is rounded to: the nearest double, and of two that are equally
near the even one; but infinity from the bound on. -/
inductive Rounds (q : ℚ) (x : Float) : Prop
  | nearest (v : ℚ) (hvalue : value? x = some v) (hbound : |q| < bound)
      (hnear : ∀ y w, value? y = some w → |q - v| ≤ |q - w|)
      (heven : ∀ y w, value? y = some w → w ≠ v → |q - v| = |q - w| → isEven x = true)
  | infinite (s : Sign) (hbound : bound ≤ |q|) (hparts : parts x = .infinity s)
      (hsign : q = withSign s |q|)

@[simp] theorem abs_withSign (s : Sign) (x : ℚ) : |withSign s x| = |x| := by
  cases s with
  | positive => rfl
  | negative => exact abs_neg x

/-- Every finite double is a multiple of a power of two. -/
theorem exists_abs_eq {x : Float} {v : ℚ} (h : value? x = some v) :
    ∃ (k : ℕ) (d : ℤ), k < 2 ^ 53 ∧ -1074 ≤ d ∧ |v| = k * 2 ^ d := by
  unfold value? at h
  cases hparts : parts x with
  | zero s =>
      rw [hparts] at h
      obtain rfl := Option.some.inj h
      exact ⟨0, 0, by decide, by decide, by simp⟩
  | finite s m e hm =>
      rw [hparts] at h
      obtain rfl := Option.some.inj h
      have hcanonical := canonical_of_unpack hparts
      refine ⟨m, e, hcanonical.fits, hcanonical.least, ?_⟩
      rw [abs_withSign, abs_of_nonneg (by positivity)]
  | infinity s => rw [hparts] at h; cases h
  | notANumber => rw [hparts] at h; cases h

/-- What is rounded beyond the largest double is what lies at the bound or beyond it. -/
theorem NearestWhole.lt_bound_iff {x : ℚ} {e : ℤ} {n : ℕ} (hspans : Spans x e)
    (h : NearestWhole (x / 2 ^ e) n) : x < bound ↔ e ≤ 970 ∨ e = 971 ∧ n < 2 ^ 53 := by
  rcases lt_trichotomy e 971 with he | rfl | he
  · refine iff_of_true ?_ (.inl (by omega))
    calc x < 2 ^ 53 * 2 ^ e := hspans.below
      _ ≤ 2 ^ 53 * 2 ^ (970 : ℤ) := by
          gcongr
          · exact one_le_two
          · omega
      _ < bound := mul_lt_mul_of_pos_right (by norm_num) (by positivity)
  · have hbound : x < bound ↔ x / 2 ^ (971 : ℤ) < 2 ^ 53 - 1 / 2 := by
      have hpower : (2 : ℚ) ^ (971 : ℤ) = 2 * 2 ^ (970 : ℤ) := zpow_one_add₀ two_ne_zero 970
      rw [div_lt_iff₀ (by positivity), hpower, bound, ← mul_assoc]
      norm_num
    have hnear := abs_le.mp h.near
    simp only [hbound, Int.reduceLE, false_or, true_and]
    constructor
    · intro hlt
      have hn : (n : ℚ) < 2 ^ 53 := by linarith
      exact_mod_cast hn
    · intro hlt
      have hn : (n : ℚ) + 1 ≤ 2 ^ 53 := by exact_mod_cast hlt
      refine lt_of_le_of_ne (by linarith) fun heq => ?_
      -- half way below the power of two, the even number is the power itself
      have hlast : n = 2 ^ 53 - 1 := by
        have hge : (2 : ℚ) ^ 53 ≤ n + 1 := by linarith
        have hge : 2 ^ 53 ≤ n + 1 := by exact_mod_cast hge
        omega
      have := h.even (by rw [heq, hlast]; norm_num)
      omega
  · refine iff_of_false (not_lt.mpr ?_) (by omega)
    calc bound ≤ 2 ^ 54 * 2 ^ (970 : ℤ) :=
          mul_le_mul_of_nonneg_right (by norm_num) (by positivity)
      _ = 2 ^ 52 * 2 ^ (972 : ℤ) := by rw [two_pow_mul_zpow, two_pow_mul_zpow]; rfl
      _ ≤ 2 ^ 52 * 2 ^ e := by
          gcongr
          · exact one_le_two
          · omega
      _ ≤ x := hspans.above.resolve_left (by omega)

/-- What is packed is the multiple of the last place, unless that is too large. -/
theorem value?_ofPlaces {s : Sign} {n : ℕ} {e : ℤ} (hn : n ≤ 2 ^ 53) (he : -1074 ≤ e)
    (hfull : e ≠ -1074 → 2 ^ 52 ≤ n) {y : Float}
    (hy : parts y = unpack Format.binary64 (pack Format.binary64 (ofPlaces s n e))) :
    if e ≤ 970 ∨ e = 971 ∧ n < 2 ^ 53 then
      value? y = some (withSign s (n * 2 ^ e)) ∧ (n % 2 = 0 → isEven y = true)
    else parts y = .infinity s := by
  unfold ofPlaces at hy
  by_cases hzero : n = 0
  · subst hzero
    rw [dif_pos rfl] at hy
    have hparts : parts y = .zero s := hy.trans (unpack_packComponents s 0#11 0#52)
    have hsigned : withSign s (((0 : ℕ) : ℚ) * 2 ^ e) = 0 := by
      cases s <;> simp [withSign]
    have hlow : e = -1074 := by
      by_contra hne
      exact absurd (hfull hne) (by decide)
    rw [if_pos (.inl (by omega)), value?, isEven, hparts, hsigned]
    exact ⟨rfl, fun _ => rfl⟩
  rw [dif_neg hzero] at hy
  by_cases hfits : n < 2 ^ 53
  · rw [if_pos hfits] at hy
    split
    · next hsmall =>
        have hcanonical : Canonical n e := ⟨hfits, he, or_iff_not_imp_left.mpr hfull⟩
        rw [unpack_pack hcanonical (by omega)] at hy
        rw [value?, isEven, hy]
        exact ⟨rfl, fun heven => beq_iff_eq.mpr heven⟩
    · next hlarge => rw [hy, unpack_pack_of_lt (by omega)]
  · rw [if_neg hfits] at hy
    obtain rfl : n = 2 ^ 53 := by omega
    split
    · next hsmall =>
        have hcanonical : Canonical (2 ^ 52) (e + 1) := ⟨by decide, by omega, .inr le_rfl⟩
        rw [unpack_pack hcanonical (by omega)] at hy
        have hcarry : (↑(2 ^ 52 : ℕ) : ℚ) * 2 ^ (e + 1) = ↑(2 ^ 53 : ℕ) * 2 ^ e := by
          rw [zpow_add_one₀ two_ne_zero]
          push_cast
          ring
        rw [value?, isEven, hy, ← hcarry]
        exact ⟨rfl, fun _ => rfl⟩
    · next hlarge => rw [hy, unpack_pack_of_lt (by omega)]

/-- Only from zero are a number and its opposite equally far. -/
theorem eq_or_eq_zero_of_tie {q v w : ℚ} (habs : |w| = |v|) (htie : |q - v| = |q - w|) :
    w = v ∨ q = 0 := by
  rcases abs_eq_abs.mp habs with h | rfl
  · exact .inl h
  · have hproduct : q * v = 0 := by
      have hsquare : (q - v) ^ 2 = (q - -v) ^ 2 := sq_eq_sq_iff_abs_eq_abs _ _ |>.mpr htie
      linarith
    rcases mul_eq_zero.mp hproduct with h | rfl
    · exact .inr h
    · exact .inl neg_zero

theorem NearestWhole.eq_zero {n : ℕ} (h : NearestWhole 0 n) : n = 0 := by
  have hnear := (abs_le.mp h.near).1
  have hn : (n : ℚ) < 1 := by linarith
  exact Nat.lt_one_iff.mp (by exact_mod_cast hn)

/-- The nearest multiple of its last place is what a number is rounded to. -/
theorem rounds_ofPlaces {s : Sign} {x : ℚ} {e : ℤ} {n : ℕ} (hx : 0 ≤ x) (hspans : Spans x e)
    (h : NearestWhole (x / 2 ^ e) n) {y : Float}
    (hy : parts y = unpack Format.binary64 (pack Format.binary64 (ofPlaces s n e))) :
    Rounds (withSign s x) y := by
  have habs : |withSign s x| = x := by rw [abs_withSign, abs_of_nonneg hx]
  have hvalue := value?_ofPlaces (h.le_two_pow hspans) hspans.least (h.two_pow_le hspans) hy
  split at hvalue
  · next hplace =>
      obtain ⟨hvalue, heven⟩ := hvalue
      have hbound := (h.lt_bound_iff hspans).mpr hplace
      have hapart : |withSign s x - withSign s (n * 2 ^ e)| = |x - n * 2 ^ e| := by
        cases s with
        | positive => rfl
        | negative =>
            show |-x - -(n * 2 ^ e)| = _
            rw [neg_sub_neg, abs_sub_comm]
      have hfar (w : ℚ) : |x - (|w|)| ≤ |withSign s x - w| := by
        calc |x - (|w|)| = |(|withSign s x|) - (|w|)| := by rw [habs]
          _ ≤ |withSign s x - w| := abs_abs_sub_abs_le_abs_sub _ _
      refine .nearest _ hvalue (habs.trans_lt hbound) ?_ ?_
      · intro z w hw
        obtain ⟨k, d, hk, hd, habsw⟩ := exists_abs_eq hw
        have hle := (h.le_abs_sub_double hspans hk hd).1
        rw [← habsw] at hle
        exact hapart.trans_le (hle.trans (hfar w))
      · intro z w hw hne htie
        refine heven ?_
        obtain ⟨k, d, hk, hd, habsw⟩ := exists_abs_eq hw
        obtain ⟨hle, hcases⟩ := h.le_abs_sub_double hspans hk hd
        rw [← habsw] at hle hcases
        have hge : |x - (|w|)| ≤ |x - n * 2 ^ e| := by
          rw [← hapart, htie]
          exact hfar w
        rcases hcases (le_antisymm hle hge) with heq | hn
        · -- the other double has the other sign, which is as far only from zero
          have habsv : |w| = |withSign s (n * 2 ^ e)| := by
            rw [abs_withSign, heq, abs_of_nonneg (by positivity)]
          have hzero := (eq_or_eq_zero_of_tie habsv htie).resolve_left hne
          have hx : x = 0 := by rw [← habs, hzero, abs_zero]
          rw [hx, zero_div] at h
          rw [h.eq_zero]
        · exact hn
  · next hplace =>
      have hbound := not_lt.mp ((h.lt_bound_iff hspans).not.mpr hplace)
      exact .infinite s (habs.ge.trans' hbound) hvalue (by rw [habs])

end PictureTree.Double
