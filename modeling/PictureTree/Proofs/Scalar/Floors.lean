/-
# `Proofs.Scalar.Floors` — the whole part of a double

A double below `2 ^ 52` has a whole part that is a machine word, and a double from there on is
whole.  So the floor of a double is exact (`value?_floor`), and what is left above it is rounded
once (`rounds_fract`) and stays between zero and one (`within_fract`).  It can be one: what is
left of a small negative number is rounded up.
-/
import PictureTree.Proofs.Scalar.Neighbours

open Float.Model (Format)
open Float.Model.UnpackedFloat

namespace PictureTree.Double

variable {x : Float} {v : ℚ}

/-! ## The whole part -/

theorem value?_abs (h : value? x = some v) : value? x.abs = some |v| := by
  have hparts : parts x.abs = unpack Format.binary64 (pack Format.binary64 (parts x).abs) := rfl
  rcases parts_of_value? h with ⟨s, hx, rfl⟩ | ⟨s, m, e, hm, hx, rfl, hcanonical⟩
  · rw [value?, hparts, hx, abs_zero]
    exact congrArg valueOf? (unpack_pack_zero .positive)
  · rw [value?, hparts, hx, abs_withSign, abs_of_nonneg (by positivity)]
    exact congrArg valueOf? (unpack_pack (s := .positive) hcanonical (bounds_of_unpack hx).2)

/-- The bits behind the point are shifted out. -/
theorem roundToInt_positive (m : ℕ) (e : ℤ) : roundToInt .positive m e = ⌊(m : ℚ) * 2 ^ e⌋₊ := by
  have hscale : (m : ℚ) * 2 ^ e = (m * 2 ^ e.toNat : ℕ) / (2 ^ (-e).toNat : ℕ) := by
    have hpower : (2 : ℚ) ^ e = 2 ^ e.toNat / 2 ^ (-e).toNat := by
      rw [← zpow_natCast, ← zpow_natCast, ← zpow_sub₀ two_ne_zero]
      congr 1
      omega
    rw [hpower]
    push_cast
    ring
  have hleft : (e - 0).toNat = e.toNat := by rw [sub_zero]
  have hright : (0 - (e - ((e - 0).toNat : ℤ))).toNat = (-e).toNat := by omega
  rw [hscale, Nat.floor_div_eq_div, ← Nat.shiftLeft_eq, ← hleft, ← hright]
  exact congrArg Nat.cast (mantissa_shiftRight (.ofMantissaAndAccuracy _ .exact) _)

theorem toNat_ofNatClamp {n : ℕ} (h : n < UInt64.size) : (UInt64.ofNatClamp n).toNat = n := by
  rw [UInt64.ofNatClamp, dif_pos h]
  exact UInt64.toNat_ofNatLT

/-- The whole part of a double that is not negative. -/
theorem toNat_toUInt64 (h : value? x = some v) (hnonneg : 0 ≤ v) (hlt : v < 2 ^ 52) :
    x.toUInt64.toNat = ⌊v⌋₊ := by
  have hword : x.toUInt64
      = UInt64.ofNatClamp ((parts x).toInt 0 ((UInt64.size : ℤ) - 1)).toNat := rfl
  have hfloor : ⌊v⌋₊ < 2 ^ 52 := by
    rw [Nat.floor_lt hnonneg]
    exact_mod_cast hlt
  have hint : ((parts x).toInt 0 ((UInt64.size : ℤ) - 1)).toNat = ⌊v⌋₊ := by
    rcases parts_of_nonneg h hnonneg with ⟨s, hx, rfl⟩ | ⟨m, e, hm, hx, rfl, -⟩
    · rw [hx, Nat.floor_zero]
      rfl
    · rw [hx]
      show (roundToInt .positive m e).toNat = ⌊(m : ℚ) * 2 ^ e⌋₊
      rw [roundToInt_positive, Int.toNat_natCast]
  rw [hword, hint, toNat_ofNatClamp (hfloor.trans (by decide))]

/-! ## The floor -/

theorem value?_two_pow_52 : value? 4503599627370496 = some (2 ^ 52) := by
  have h : value? 4503599627370496 = some ((2 ^ 52 : ℕ) : ℚ) :=
    value?_of_isWhole (by decide +kernel)
  rwa [Nat.cast_pow, Nat.cast_ofNat] at h

theorem value?_add_one {n : ℕ} (h : value? x = some (n : ℚ)) (hn : n + 1 < 2 ^ 53) :
    value? (x + 1) = some ((n + 1 : ℕ) : ℚ) := by
  have hone : value? 1 = some ((1 : ℕ) : ℚ) := value?_of_isWhole (by decide)
  obtain ⟨y, hy⟩ := exists_value?_eq_natCast n.succ_pos hn
  have hrounds := rounds_add h hone
  rw [← Nat.cast_add] at hrounds
  exact hrounds.value?_eq hy

/-- A double below `2 ^ 52` in magnitude is floored by its whole part. -/
theorem value?_floor_of_lt (h : value? x = some v) (hlt : |v| < 2 ^ 52) :
    value? (floor x) = some (⌊v⌋ : ℚ) := by
  have habs := value?_abs h
  have hnat : ⌊|v|⌋₊ < 2 ^ 52 := by
    rw [Nat.floor_lt (abs_nonneg v)]
    exact_mod_cast hlt
  have hwhole : value? x.abs.toUInt64.toFloat = some (⌊|v|⌋₊ : ℚ) := by
    have hword := toNat_toUInt64 habs (abs_nonneg v) hlt
    rw [value?_toFloat (by omega), hword]
  have hsmall : x.abs < 4503599627370496 :=
    of_decide_eq_true ((lt_iff habs value?_two_pow_52).mpr hlt)
  have hfloor := Nat.floor_le (abs_nonneg v)
  have hceil := Nat.lt_floor_add_one |v|
  rw [floor, if_pos hsmall]
  generalize ⌊|v|⌋₊ = n at hnat hwhole hfloor hceil
  generalize x.abs.toUInt64.toFloat = whole at hwhole
  dsimp only
  split
  · next heq =>
      have heq : |v| = n := ((eq_iff hwhole habs).mp heq).symm
      rcases (abs_eq n.cast_nonneg).mp heq with rfl | rfl
      · rw [h, Int.floor_natCast, Int.cast_natCast]
      · rw [h, ← Int.cast_natCast, ← Int.cast_neg, Int.floor_intCast]
  next hne =>
  have hgap : (n : ℚ) < |v| :=
    lt_of_le_of_ne hfloor fun heq => hne ((eq_iff hwhole habs).mpr heq)
  split
  · next hneg =>
      have hneg : v < 0 := (lt_iff h value?_zero).mp (decide_eq_true hneg)
      have hv : ⌊v⌋ = -((n + 1 : ℕ) : ℤ) := by
        rw [abs_of_neg hneg] at hgap hceil
        refine Int.floor_eq_iff.mpr ⟨?_, ?_⟩ <;> push_cast <;> linarith
      rw [value?_neg (value?_add_one hwhole (by omega)), hv, Int.cast_neg, Int.cast_natCast]
  · next hnonneg =>
      have hnonneg : 0 ≤ v := not_lt.mp fun hlt =>
        hnonneg (of_decide_eq_true ((lt_iff h value?_zero).mpr hlt))
      have hv : ⌊v⌋ = (n : ℤ) := by
        rw [abs_of_nonneg hnonneg] at hfloor hceil
        exact Int.floor_eq_iff.mpr ⟨hfloor, hceil⟩
      rw [hwhole, hv, Int.cast_natCast]

/-- The floor of a double is exact. -/
theorem value?_floor (h : value? x = some v) : value? (floor x) = some (⌊v⌋ : ℚ) := by
  by_cases hlt : |v| < 2 ^ 52
  · exact value?_floor_of_lt h hlt
  · have hlarge : ¬ x.abs < 4503599627370496 := fun hsmall =>
      hlt ((lt_iff (value?_abs h) value?_two_pow_52).mp (decide_eq_true hsmall))
    have hkeeps : Keeps 0 v := .inr (not_lt.mp hlt)
    obtain ⟨k, hk, -⟩ := exists_eq_mul h hkeeps
    rw [zpow_zero, mul_one] at hk
    rw [floor, if_neg hlarge, h, hk, Int.floor_intCast]

/-! ## The fractional part -/

theorem rounds_fract (h : value? x = some v) : Rounds (Int.fract v) (Scalar.fract x) :=
  rounds_sub h (value?_floor h)

theorem within_fract (h : value? x = some v) : Within 0 1 (Scalar.fract x) :=
  (rounds_fract h).within value?_zero value?_one (Int.fract_nonneg v) (Int.fract_lt_one v).le

end PictureTree.Double
