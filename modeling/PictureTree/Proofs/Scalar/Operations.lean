/-
# `Proofs.Scalar.Operations` — operations on doubles are rounded once

The result of an operation on finite doubles is the exact result, rounded:

    rounds_add, rounds_sub, rounds_mul    always
    rounds_div                            unless the divisor is zero

Sums and products have an exact mantissa, which is then rounded.  A quotient has none; it is
computed to a place that leaves 53 bits of it, and the remainder tells on which side of the half
the rest lies (`rounds_div_finite`).

Doubles are compared by their exponents first, and this is the order of the numbers because
mantissas are full wherever an exponent is not the lowest (`compare_parts`).
-/
import PictureTree.Proofs.Scalar.Rounding

open Float.Model (Format)
open Float.Model.UnpackedFloat

namespace PictureTree.Double

/-! ## What is rounded -/

variable {s : Sign} {m : ℕ} {e : ℤ} {y : Float}

theorem rounds_roundWithAccuracy {a : Accuracy} {f : ℚ} (hf : Describes a f)
    (he : e ≤ lastPlace m e) (h : 0 < m ∨ e ≤ -1074)
    (hy : parts y = unpack Format.binary64
      (pack Format.binary64 (roundWithAccuracy Format.binary64 s m e a))) :
    Rounds (withSign s ((m + f) * 2 ^ e)) y := by
  obtain ⟨n, hn, hround⟩ := exists_roundWithAccuracy_eq (s := s) hf he h
  have hnonneg : 0 ≤ ((m : ℚ) + f) * 2 ^ e := by
    have := hf.bounds.1
    positivity
  exact rounds_ofPlaces hnonneg (spans_lastPlace hf.bounds h) hn (hround ▸ hy)

theorem rounds_exact (hm : 0 < m) (he : e ≤ lastPlace m e)
    (hy : parts y = unpack Format.binary64
      (pack Format.binary64 (roundWithAccuracy Format.binary64 s m e .exact))) :
    Rounds (withSign s (m * 2 ^ e)) y := by
  have hf : Describes .exact 0 := rfl
  have h := rounds_roundWithAccuracy hf he (.inl hm) hy
  rwa [add_zero] at h

theorem lastPlace_shiftLeft (hm : 0 < m) (k : ℕ) :
    lastPlace (m * 2 ^ k) (e - k) = lastPlace m e := by
  unfold lastPlace
  rw [log2_mul_two_pow hm]
  congr 1
  push_cast
  ring

theorem rounds_round (hm : 0 < m)
    (hy : parts y = unpack Format.binary64
      (pack Format.binary64 (round Format.binary64 s m e))) :
    Rounds (withSign s (m * 2 ^ e)) y := by
  let k := (e - lastPlace m e).toNat
  have hplace := lastPlace_shiftLeft (e := e) hm k
  have hexact : (↑(m * 2 ^ k) : ℚ) * 2 ^ (e - k) = m * 2 ^ e := by
    rw [zpow_sub₀ two_ne_zero, zpow_natCast]
    push_cast
    field_simp
  have hround : round Format.binary64 s m e
      = roundWithAccuracy Format.binary64 s (m * 2 ^ k) (e - k) .exact := by
    rw [← Nat.shiftLeft_eq]
    rfl
  rw [← hexact]
  exact rounds_exact (by positivity) (by omega) (hround ▸ hy)

/-! ## Products and quotients of parts -/

theorem withSign_mul (s t : Sign) (x y : ℚ) :
    withSign (s * t) (x * y) = withSign s x * withSign t y := by
  cases s <;> cases t
  · exact (neg_mul_neg x y).symm
  · exact (neg_mul x y).symm
  · exact (mul_neg x y).symm
  · rfl

theorem withSign_div (s t : Sign) (x y : ℚ) :
    withSign (s / t) (x / y) = withSign s x / withSign t y := by
  cases s <;> cases t
  · exact (neg_div_neg_eq x y).symm
  · exact (neg_div y x).symm
  · exact (div_neg x).symm
  · rfl

variable {s₁ s₂ : Sign} {m₁ m₂ : ℕ} {e₁ e₂ : ℤ} {hm₁ : 0 < m₁} {hm₂ : 0 < m₂}

theorem rounds_mul_finite (he : e₁ + e₂ ≤ lastPlace (m₁ * m₂) (e₁ + e₂))
    (hy : parts y = unpack Format.binary64 (pack Format.binary64
      (mul Format.binary64 (.finite s₁ m₁ e₁ hm₁) (.finite s₂ m₂ e₂ hm₂)))) :
    Rounds (withSign s₁ (m₁ * 2 ^ e₁) * withSign s₂ (m₂ * 2 ^ e₂)) y := by
  have hproduct : (↑(m₁ * m₂) : ℚ) * 2 ^ (e₁ + e₂) = (m₁ * 2 ^ e₁) * (m₂ * 2 ^ e₂) := by
    rw [zpow_add₀ two_ne_zero]
    push_cast
    ring
  rw [← withSign_mul, ← hproduct]
  exact rounds_exact (Nat.mul_pos hm₁ hm₂) he hy

theorem describes_accuracyOfFraction {r d : ℕ} (h : r < d) :
    Describes (accuracyOfFraction r d) (r / d) := by
  have hd : (0 : ℚ) < d := by exact_mod_cast Nat.zero_lt_of_lt h
  unfold accuracyOfFraction
  split
  · next hzero =>
      show (r : ℚ) / d = 0
      rw [hzero, Nat.cast_zero, zero_div]
  · next hne =>
      have hr : (0 : ℚ) < r := by exact_mod_cast Nat.pos_of_ne_zero hne
      have hdouble : (r : ℚ) / d * (2 * d) = (2 * r : ℕ) := by
        push_cast
        field_simp
      cases hcompare : compare (2 * r) d with
      | lt =>
          have hlt : 2 * r < d := Nat.compare_eq_lt.mp hcompare
          refine ⟨by positivity, (div_lt_div_iff₀ hd two_pos).mpr ?_⟩
          exact_mod_cast (by omega : r * 2 < 1 * d)
      | eq =>
          have heq : 2 * r = d := Nat.compare_eq_eq.mp hcompare
          refine (div_eq_div_iff hd.ne' two_ne_zero).mpr ?_
          exact_mod_cast (by omega : r * 2 = 1 * d)
      | gt =>
          have hgt : d < 2 * r := Nat.compare_eq_gt.mp hcompare
          refine ⟨(div_lt_div_iff₀ two_pos hd).mpr ?_, (div_lt_one hd).mpr (by exact_mod_cast h)⟩
          exact_mod_cast (by omega : 1 * d < r * 2)

/-- The exponent that a quotient is computed with. -/
def quotientPlace (m₁ : ℕ) (e₁ : ℤ) (m₂ : ℕ) (e₂ : ℤ) : ℤ :=
  min (e₁ - e₂) (max ((m₁.log2 + 1 + e₁) - (m₂.log2 + 1 + e₂) - 53) (-1074))

/-- The whole part of a quotient has a full mantissa, unless the last place is the lowest. -/
theorem quotientPlace_le {m₁ m₂ : ℕ} (hm₁ : 0 < m₁) (hm₂ : 0 < m₂) (e₁ e₂ : ℤ) :
    quotientPlace m₁ e₁ m₂ e₂ ≤ -1074 ∨
      2 ^ 52 ≤ m₁ * 2 ^ (e₁ - e₂ - quotientPlace m₁ e₁ m₂ e₂).toNat / m₂ := by
  by_cases hlow : quotientPlace m₁ e₁ m₂ e₂ ≤ -1074
  · exact .inl hlow
  · right
    have hshift : m₂.log2 + 53 ≤ m₁.log2 + (e₁ - e₂ - quotientPlace m₁ e₁ m₂ e₂).toNat := by
      unfold quotientPlace at hlow ⊢
      omega
    rw [Nat.le_div_iff_mul_le hm₂]
    calc 2 ^ 52 * m₂ ≤ 2 ^ 52 * 2 ^ (m₂.log2 + 1) := by
          gcongr
          exact Nat.lt_log2_self.le
      _ = 2 ^ (m₂.log2 + 53) := by ring
      _ ≤ 2 ^ (m₁.log2 + (e₁ - e₂ - quotientPlace m₁ e₁ m₂ e₂).toNat) :=
          Nat.pow_le_pow_right two_pos hshift
      _ = 2 ^ m₁.log2 * 2 ^ (e₁ - e₂ - quotientPlace m₁ e₁ m₂ e₂).toNat := Nat.pow_add ..
      _ ≤ m₁ * 2 ^ (e₁ - e₂ - quotientPlace m₁ e₁ m₂ e₂).toNat := by
          gcongr
          exact Nat.log2_self_le hm₁.ne'

theorem rounds_div_finite
    (hy : parts y = unpack Format.binary64 (pack Format.binary64
      (div Format.binary64 (.finite s₁ m₁ e₁ hm₁) (.finite s₂ m₂ e₂ hm₂)))) :
    Rounds (withSign s₁ (m₁ * 2 ^ e₁) / withSign s₂ (m₂ * 2 ^ e₂)) y := by
  let place := quotientPlace m₁ e₁ m₂ e₂
  let shifted := m₁ * 2 ^ (e₁ - e₂ - place).toNat
  have hplaces := quotientPlace_le hm₁ hm₂ e₁ e₂
  have hfraction := describes_accuracyOfFraction (Nat.mod_lt shifted hm₂)
  have hdiv : div Format.binary64 (.finite s₁ m₁ e₁ hm₁) (.finite s₂ m₂ e₂ hm₂)
      = roundWithAccuracy Format.binary64 (s₁ / s₂) (shifted / m₂) place
          (accuracyOfFraction (shifted % m₂) m₂) := by
    show roundWithAccuracy _ _ (m₁ <<< _ / m₂) _ (accuracyOfFraction (m₁ <<< _ % m₂) m₂) = _
    rw [Nat.shiftLeft_eq]
    rfl
  have hvalue : (↑(shifted / m₂) + ↑(shifted % m₂) / (m₂ : ℚ)) * 2 ^ place
      = m₁ * 2 ^ e₁ / (m₂ * 2 ^ e₂) := by
    have hpos : (0 : ℚ) < m₂ := by exact_mod_cast hm₂
    have hwhole : (↑(shifted / m₂) + ↑(shifted % m₂) / (m₂ : ℚ)) = shifted / m₂ := by
      rw [eq_div_iff hpos.ne', add_mul, div_mul_cancel₀ _ hpos.ne']
      exact_mod_cast Nat.div_add_mod' shifted m₂
    have hscale : (2 : ℚ) ^ (e₁ - e₂ - place).toNat * 2 ^ place = 2 ^ (e₁ - e₂) := by
      have hle : place ≤ e₁ - e₂ := min_le_left _ _
      rw [two_pow_mul_zpow]
      congr 1
      omega
    calc (↑(shifted / m₂) + ↑(shifted % m₂) / (m₂ : ℚ)) * 2 ^ place
        = m₁ * (2 ^ (e₁ - e₂ - place).toNat * 2 ^ place) / m₂ := by
          rw [hwhole]
          push_cast [shifted]
          ring
      _ = m₁ * 2 ^ e₁ / (m₂ * 2 ^ e₂) := by
          rw [hscale, zpow_sub₀ two_ne_zero]
          field_simp
  rw [← withSign_div, ← hvalue]
  refine rounds_roundWithAccuracy hfraction ?_ ?_ (hdiv ▸ hy)
  · rcases hplaces with hlow | hfull
    · exact hlow.trans (le_max_right _ _)
    · have hpos : 0 < shifted / m₂ := hfull.trans_lt' (by decide)
      have hlog : 52 ≤ (shifted / m₂).log2 := (Nat.le_log2 hpos.ne').mpr hfull
      unfold lastPlace
      omega
  · rcases hplaces with hlow | hfull
    · exact .inr hlow
    · exact .inl (hfull.trans_lt' (by decide))

/-! ## Products and quotients of doubles -/

section Doubles

variable {x y z : Float} {a b q v : ℚ}

theorem unpack_pack_zero (s : Sign) :
    unpack Format.binary64 (pack Format.binary64 (.zero s)) = .zero s :=
  unpack_packComponents s 0#11 0#52

/-- A finite double is zero, or a mantissa times a power of two. -/
theorem parts_of_value? (h : value? x = some v) :
    (∃ s, parts x = .zero s ∧ v = 0) ∨
      ∃ s m e hm, parts x = .finite s m e hm ∧ v = withSign s (m * 2 ^ e) ∧ Canonical m e := by
  unfold value? at h
  cases hparts : parts x with
  | zero s =>
      rw [hparts] at h
      exact .inl ⟨s, rfl, (Option.some.inj h).symm⟩
  | finite s m e hm =>
      rw [hparts] at h
      exact .inr ⟨s, m, e, hm, rfl, (Option.some.inj h).symm, canonical_of_unpack hparts⟩
  | infinity s => rw [hparts] at h; cases h
  | notANumber => rw [hparts] at h; cases h

/-- Every canonical mantissa with an exponent that fits is a double. -/
theorem exists_value?_eq {m : ℕ} {e : ℤ} (hm : 0 < m) (h : Canonical m e) (he : e ≤ 971)
    (s : Sign) : ∃ x, value? x = some (withSign s (m * 2 ^ e)) := by
  refine ⟨.ofModel (.pack (.finite s m e hm)), ?_⟩
  have hparts : parts (.ofModel (.pack (.finite s m e hm))) = .finite s m e hm := unpack_pack h he
  rw [value?, hparts]
  rfl

theorem abs_lt_bound (h : value? x = some v) : |v| < bound := by
  rcases parts_of_value? h with ⟨s, -, rfl⟩ | ⟨s, m, e, hm, hparts, rfl, hcanonical⟩
  · rw [abs_zero]
    exact mul_pos (by norm_num) (by positivity)
  · have he : e ≤ 971 := (bounds_of_unpack hparts).2
    have hm : (m : ℚ) + 1 ≤ 2 ^ 53 := by exact_mod_cast hcanonical.fits
    rw [abs_withSign, abs_of_nonneg (by positivity)]
    calc (m : ℚ) * 2 ^ e ≤ (2 ^ 53 - 1) * 2 ^ (971 : ℤ) := by
          gcongr
          · linarith
          · exact one_le_two
      _ = (2 ^ 54 - 2) * 2 ^ (970 : ℤ) := by
          have hpower : (2 : ℚ) ^ (971 : ℤ) = 2 * 2 ^ (970 : ℤ) := zpow_one_add₀ two_ne_zero 970
          rw [hpower]
          ring
      _ < bound := mul_lt_mul_of_pos_right (by norm_num) (by positivity)

/-- A double is rounded to itself. -/
theorem rounds_self (h : value? x = some v) : Rounds v x := by
  refine .nearest v h (abs_lt_bound h) (fun y w _ => ?_) (fun y w _ hne htie => ?_)
  · rw [sub_self, abs_zero]
    exact abs_nonneg _
  · rw [sub_self, abs_zero, eq_comm, abs_eq_zero, sub_eq_zero] at htie
    exact (hne htie.symm).elim

/-- What is a double is not rounded. -/
theorem Rounds.value?_eq (h : Rounds q x) (hq : value? y = some q) : value? x = some q := by
  cases h with
  | nearest v hvalue _ hnear _ =>
      have hle := hnear y q hq
      rw [sub_self, abs_zero] at hle
      rw [hvalue, sub_eq_zero.mp (abs_nonpos_iff.mp hle)]
  | infinite s hbound _ _ => exact absurd (abs_lt_bound hq) (not_lt.mpr hbound)

theorem rounds_zero {s : Sign} (h : parts x = .zero s) : Rounds 0 x :=
  rounds_self (by rw [value?, h]; rfl)

theorem parts_neg (x : Float) : parts (-x) = (parts x).neg := by
  show unpack Format.binary64 (pack Format.binary64 (parts x).neg) = _
  cases hparts : parts x with
  | zero s => exact unpack_pack_zero _
  | finite s m e hm => exact unpack_pack (canonical_of_unpack hparts) (bounds_of_unpack hparts).2
  | infinity s => exact (unpack_packComponents _ (-1#11) 0#52).trans rfl
  | notANumber => exact unpack_packedNaN

theorem withSign_neg (s : Sign) (q : ℚ) : withSign (-s) q = -withSign s q := by
  cases s with
  | positive => rfl
  | negative => exact (neg_neg q).symm

theorem value?_neg (h : value? x = some v) : value? (-x) = some (-v) := by
  rcases parts_of_value? h with ⟨s, hparts, rfl⟩ | ⟨s, m, e, hm, hparts, rfl, -⟩
  · rw [value?, parts_neg, hparts, neg_zero]
    rfl
  · rw [value?, parts_neg, hparts, ← withSign_neg]
    rfl

theorem isEven_neg (x : Float) : isEven (-x) = isEven x := by
  unfold isEven
  rw [parts_neg]
  cases parts x <;> rfl

/-- The opposite number is rounded to the opposite double. -/
theorem Rounds.neg (h : Rounds q x) : Rounds (-q) (-x) := by
  have hmirror (v : ℚ) : |-q - -v| = |q - v| := by rw [neg_sub_neg, abs_sub_comm]
  have hfar (w : ℚ) : |q - -w| = |-q - w| := by rw [← hmirror (-w), neg_neg]
  cases h with
  | nearest v hvalue hbound hnear heven =>
      refine .nearest (-v) (value?_neg hvalue) (by rwa [abs_neg]) (fun y w hw => ?_) ?_
      · rw [hmirror, ← hfar]
        exact hnear (-y) (-w) (value?_neg hw)
      · intro y w hw hne htie
        rw [isEven_neg]
        refine heven (-y) (-w) (value?_neg hw) (fun h => hne (neg_eq_iff_eq_neg.mp h)) ?_
        rw [hfar, ← htie, hmirror]
  | infinite s hbound hparts hsign =>
      refine .infinite (-s) (by rwa [abs_neg]) (by rw [parts_neg, hparts]; rfl) ?_
      rw [abs_neg, withSign_neg, ← hsign]

theorem Canonical.add_le_lastPlace {m₁ m₂ : ℕ} {e₁ e₂ : ℤ} (hm₁ : 0 < m₁) (hm₂ : 0 < m₂)
    (h₁ : Canonical m₁ e₁) (h₂ : Canonical m₂ e₂) :
    e₁ + e₂ ≤ lastPlace (m₁ * m₂) (e₁ + e₂) := by
  by_cases hfull : 2 ^ 52 ≤ m₁ * m₂
  · have hlog : 52 ≤ (m₁ * m₂).log2 := (Nat.le_log2 (Nat.mul_pos hm₁ hm₂).ne').mpr hfull
    unfold lastPlace
    omega
  · -- then none of the two mantissas is full
    have hlow₁ : e₁ = -1074 := h₁.full.resolve_right fun h =>
      hfull (h.trans (Nat.le_mul_of_pos_right _ hm₂))
    have hlow₂ : e₂ = -1074 := h₂.full.resolve_right fun h =>
      hfull (h.trans (Nat.le_mul_of_pos_left _ hm₁))
    unfold lastPlace
    omega

theorem rounds_mul (hx : value? x = some a) (hy : value? y = some b) : Rounds (a * b) (x * y) := by
  have hparts : parts (x * y) = unpack Format.binary64
      (pack Format.binary64 (mul Format.binary64 (parts x) (parts y))) := rfl
  rcases parts_of_value? hx with ⟨s₁, hpx, rfl⟩ | ⟨s₁, m₁, e₁, hm₁, hpx, rfl, h₁⟩ <;>
    rcases parts_of_value? hy with ⟨s₂, hpy, rfl⟩ | ⟨s₂, m₂, e₂, hm₂, hpy, rfl, h₂⟩ <;>
    rw [hpx, hpy] at hparts
  · rw [mul_zero]
    exact rounds_zero (hparts.trans (unpack_pack_zero _))
  · rw [zero_mul]
    exact rounds_zero (hparts.trans (unpack_pack_zero _))
  · rw [mul_zero]
    exact rounds_zero (hparts.trans (unpack_pack_zero _))
  · exact rounds_mul_finite (h₁.add_le_lastPlace hm₁ hm₂ h₂) hparts

theorem rounds_div (hx : value? x = some a) (hy : value? y = some b) (hb : b ≠ 0) :
    Rounds (a / b) (x / y) := by
  have hparts : parts (x / y) = unpack Format.binary64
      (pack Format.binary64 (div Format.binary64 (parts x) (parts y))) := rfl
  rcases parts_of_value? hy with ⟨s₂, -, rfl⟩ | ⟨s₂, m₂, e₂, hm₂, hpy, rfl, -⟩
  · exact (hb rfl).elim
  rcases parts_of_value? hx with ⟨s₁, hpx, rfl⟩ | ⟨s₁, m₁, e₁, hm₁, hpx, rfl, -⟩ <;>
    rw [hpx, hpy] at hparts
  · rw [zero_div]
    exact rounds_zero (hparts.trans (unpack_pack_zero _))
  · exact rounds_div_finite hparts

/-! ## Sums and differences of doubles -/

theorem rounds_normalize {m : ℤ} {e : ℤ} (hy : parts y = unpack Format.binary64
    (pack Format.binary64 (normalize Format.binary64 m e .positive))) :
    Rounds (m * 2 ^ e) y := by
  unfold Float.Model.UnpackedFloat.normalize at hy
  split at hy
  · next hcompare =>
      have hneg : m < 0 := Int.compare_eq_lt.mp hcompare
      have hcast : (m : ℚ) * 2 ^ e = withSign .negative (((-m).toNat : ℕ) * 2 ^ e) := by
        have habs : (((-m).toNat : ℤ) : ℚ) = -m := by
          rw [Int.toNat_of_nonneg (by omega), Int.cast_neg]
        show (m : ℚ) * 2 ^ e = -(_ * 2 ^ e)
        rw [← Int.cast_natCast, habs, neg_mul, neg_neg]
      rw [hcast]
      exact rounds_round (by omega) hy
  · next hcompare =>
      have hzero : m = 0 := Int.compare_eq_eq.mp hcompare
      rw [hzero, Int.cast_zero, zero_mul]
      exact rounds_zero (hy.trans (unpack_pack_zero _))
  · next hcompare =>
      have hpos : 0 < m := Int.compare_eq_gt.mp hcompare
      have hcast : (m : ℚ) * 2 ^ e = withSign .positive ((m.toNat : ℕ) * 2 ^ e) := by
        have habs : ((m.toNat : ℤ) : ℚ) = m := by rw [Int.toNat_of_nonneg hpos.le]
        show (m : ℚ) * 2 ^ e = _ * 2 ^ e
        rw [← Int.cast_natCast, habs]
      rw [hcast]
      exact rounds_round (by omega) hy

/-- A mantissa that is moved to a lower exponent stands for the same number. -/
theorem apply_decreaseExponent (s : Sign) (m : ℕ) {e place : ℤ} (h : place ≤ e) :
    (s.apply ((decreaseExponent m e place).1 : ℤ) : ℚ) * 2 ^ place = withSign s (m * 2 ^ e) := by
  have hshift : ((m <<< (e - place).toNat : ℕ) : ℚ) * 2 ^ place = m * 2 ^ e := by
    have hpower : (2 : ℚ) ^ (e - place).toNat * 2 ^ place = 2 ^ e := by
      rw [two_pow_mul_zpow]
      congr 1
      omega
    rw [Nat.shiftLeft_eq, Nat.cast_mul, Nat.cast_pow, Nat.cast_ofNat, mul_assoc, hpower]
  show (s.apply ((m <<< (e - place).toNat : ℕ) : ℤ) : ℚ) * 2 ^ place = _
  cases s with
  | positive => exact_mod_cast hshift
  | negative =>
      show ((-((m <<< (e - place).toNat : ℕ) : ℤ) : ℤ) : ℚ) * 2 ^ place = -(m * 2 ^ e)
      rw [Int.cast_neg, Int.cast_natCast, neg_mul, hshift]

theorem value?_of_parts_eq (h : value? x = some v)
    (hy : parts y = unpack Format.binary64 (pack Format.binary64 (parts x))) :
    value? y = some v := by
  have hparts : parts y = parts x := by
    rcases parts_of_value? h with ⟨s, hx, -⟩ | ⟨s, m, e, hm, hx, -, hcanonical⟩
    · rw [hy, hx, unpack_pack_zero]
    · rw [hy, hx, unpack_pack hcanonical (bounds_of_unpack hx).2]
  rw [value?, hparts]
  exact h

theorem rounds_add (hx : value? x = some a) (hy : value? y = some b) : Rounds (a + b) (x + y) := by
  have hparts : parts (x + y) = unpack Format.binary64
      (pack Format.binary64 (add Format.binary64 (parts x) (parts y))) := rfl
  rcases parts_of_value? hx with ⟨s₁, hpx, rfl⟩ | ⟨s₁, m₁, e₁, hm₁, hpx, rfl, -⟩ <;>
    rcases parts_of_value? hy with ⟨s₂, hpy, rfl⟩ | ⟨s₂, m₂, e₂, hm₂, hpy, rfl, -⟩
  · rw [hpx, hpy] at hparts
    rw [add_zero]
    cases s₁ <;> cases s₂ <;> exact rounds_zero (hparts.trans (unpack_pack_zero _))
  · rw [zero_add]
    refine rounds_self (value?_of_parts_eq hy (hparts.trans ?_))
    rw [hpx, hpy]
    rfl
  · rw [add_zero]
    refine rounds_self (value?_of_parts_eq hx (hparts.trans ?_))
    rw [hpx, hpy]
    rfl
  · rw [hpx, hpy] at hparts
    rw [← apply_decreaseExponent s₁ m₁ (min_le_left e₁ e₂),
      ← apply_decreaseExponent s₂ m₂ (min_le_right e₁ e₂), ← add_mul, ← Int.cast_add]
    exact rounds_normalize hparts

/-- A difference is the sum with the opposite. -/
theorem sub_eq (x y : Float) : x - y = x + -y := by
  have hparts (u v : Float.Model.UnpackedFloat) :
      sub Format.binary64 u v = add Format.binary64 u v.neg := by
    have happly (t : Sign) (k : ℤ) : (-t).apply k = -t.apply k := by
      cases t with
      | positive => rfl
      | negative => exact (Int.neg_neg k).symm
    cases u <;> cases v
    case finite.finite =>
      simp only [sub, add, Float.Model.UnpackedFloat.neg, happly, Int.sub_eq_add_neg]
    all_goals rfl
  show Float.ofModel (.pack (sub _ (parts x) (parts y)))
    = .ofModel (.pack (add _ (parts x) (parts (-y))))
  rw [parts_neg, hparts]

theorem rounds_sub (hx : value? x = some a) (hy : value? y = some b) : Rounds (a - b) (x - y) := by
  rw [sub_eq, sub_eq_add_neg]
  exact rounds_add hx (value?_neg hy)

/-! ## The order of doubles -/

theorem Canonical.lt_of_lt {m₁ m₂ : ℕ} {e₁ e₂ : ℤ} (h₁ : Canonical m₁ e₁) (h₂ : Canonical m₂ e₂)
    (h : e₁ < e₂) : (m₁ * 2 ^ e₁ : ℚ) < m₂ * 2 ^ e₂ := by
  have hfull : 2 ^ 52 ≤ m₂ := h₂.full.resolve_left fun hlow => by
    have := h₁.least
    omega
  calc (m₁ * 2 ^ e₁ : ℚ) < 2 ^ 53 * 2 ^ e₁ := by
        gcongr
        exact_mod_cast h₁.fits
    _ = 2 ^ 52 * 2 ^ (e₁ + 1) := by rw [zpow_add_one₀ two_ne_zero]; ring
    _ ≤ m₂ * 2 ^ e₂ := by
        gcongr
        · exact_mod_cast hfull
        · exact one_le_two
        · omega

/-- Exponents are compared first, and mantissas only if these are the same. -/
theorem Canonical.compare_eq {m₁ m₂ : ℕ} {e₁ e₂ : ℤ} (h₁ : Canonical m₁ e₁)
    (h₂ : Canonical m₂ e₂) :
    (compare e₁ e₂).then (compare m₁ m₂) = compare (m₁ * 2 ^ e₁ : ℚ) (m₂ * 2 ^ e₂) := by
  rcases lt_trichotomy e₁ e₂ with h | rfl | h
  · rw [compare_lt_iff_lt.mpr h, compare_lt_iff_lt.mpr (h₁.lt_of_lt h₂ h)]
    rfl
  · have hpower : (0 : ℚ) < 2 ^ e₁ := by positivity
    rw [compare_eq_iff_eq.mpr rfl]
    show compare m₁ m₂ = _
    rcases lt_trichotomy m₁ m₂ with h | rfl | h
    · rw [compare_lt_iff_lt.mpr h, eq_comm, compare_lt_iff_lt]
      gcongr
    · rw [compare_eq_iff_eq.mpr rfl, compare_eq_iff_eq.mpr rfl]
    · rw [compare_gt_iff_gt.mpr h, eq_comm, compare_gt_iff_gt]
      gcongr
  · rw [compare_gt_iff_gt.mpr h, compare_gt_iff_gt.mpr (h₂.lt_of_lt h₁ h)]
    rfl

theorem compare_neg_neg (a b : ℚ) : compare (-a) (-b) = compare b a := by
  rcases lt_trichotomy a b with h | rfl | h
  · rw [compare_gt_iff_gt.mpr (neg_lt_neg h), compare_gt_iff_gt.mpr h]
  · rw [compare_eq_iff_eq.mpr rfl, compare_eq_iff_eq.mpr rfl]
  · rw [compare_lt_iff_lt.mpr (neg_lt_neg h), compare_lt_iff_lt.mpr h]

/-- Doubles are compared as the numbers that they are. -/
theorem compare_parts (hx : value? x = some a) (hy : value? y = some b) :
    (parts x).compare (parts y) = some (compare a b) := by
  have hmagnitude {m : ℕ} (hm : 0 < m) (e : ℤ) : (0 : ℚ) < m * 2 ^ e := by positivity
  rcases parts_of_value? hx with ⟨s₁, hpx, rfl⟩ | ⟨s₁, m₁, e₁, hm₁, hpx, rfl, h₁⟩ <;>
    rcases parts_of_value? hy with ⟨s₂, hpy, rfl⟩ | ⟨s₂, m₂, e₂, hm₂, hpy, rfl, h₂⟩ <;>
    rw [hpx, hpy]
  · rw [compare_eq_iff_eq.mpr rfl]
    rfl
  · have hpos := hmagnitude hm₂ e₂
    cases s₂ with
    | positive => exact congrArg some (compare_lt_iff_lt.mpr hpos).symm
    | negative => exact congrArg some (compare_gt_iff_gt.mpr (neg_lt_zero.mpr hpos)).symm
  · have hpos := hmagnitude hm₁ e₁
    cases s₁ with
    | positive => exact congrArg some (compare_gt_iff_gt.mpr hpos).symm
    | negative => exact congrArg some (compare_lt_iff_lt.mpr (neg_lt_zero.mpr hpos)).symm
  · have hpos₁ := hmagnitude hm₁ e₁
    have hpos₂ := hmagnitude hm₂ e₂
    cases s₁ <;> cases s₂
    · have hswap : ((compare e₁ e₂).then (compare m₁ m₂)).swap
          = (compare e₂ e₁).then (compare m₂ m₁) := by
        rw [Ordering.swap_then, ← Std.OrientedCmp.eq_swap, ← Std.OrientedCmp.eq_swap]
      show some ((compare e₁ e₂).then (compare m₁ m₂)).swap = some (compare (-_) (-_))
      rw [hswap, h₂.compare_eq h₁, compare_neg_neg]
    · have hlt : -(m₁ * 2 ^ e₁ : ℚ) < m₂ * 2 ^ e₂ := by linarith
      exact congrArg some (compare_lt_iff_lt.mpr hlt).symm
    · have hgt : -(m₂ * 2 ^ e₂ : ℚ) < m₁ * 2 ^ e₁ := by linarith
      exact congrArg some (compare_gt_iff_gt.mpr hgt).symm
    · exact congrArg some (h₁.compare_eq h₂)

theorem le_iff (hx : value? x = some a) (hy : value? y = some b) :
    Scalar.le x y = true ↔ a ≤ b := by
  rw [le_eq, Float.Model.UnpackedFloat.le, compare_parts hx hy]
  show (compare a b).isLE = true ↔ _
  rw [Ordering.isLE_iff_ne_gt]
  exact compare_le_iff_le

theorem lt_iff (hx : value? x = some a) (hy : value? y = some b) :
    Scalar.lt x y = true ↔ a < b := by
  rw [lt_eq, Float.Model.UnpackedFloat.lt, compare_parts hx hy, ← compare_lt_iff_lt, beq_iff_eq,
    Option.some_inj]

theorem eq_iff (hx : value? x = some a) (hy : value? y = some b) :
    Scalar.eq x y = true ↔ a = b := by
  show ((parts x).compare (parts y) == some .eq) = true ↔ _
  rw [compare_parts hx hy, beq_iff_eq, Option.some_inj, compare_eq_iff_eq]

end Doubles

end PictureTree.Double
