/-
# `Proofs.Scalar.Neighbours` — what is rounded into the unit interval

Rounding keeps the order, so what lies between two doubles stays between them
(`Rounds.le_of_le`).  A bound that is a double is passed by numbers up to half a place beyond
it, if its last bit is zero (`Rounds.le_iff`).  Hence a number has one rounded value
(`Rounds.value_eq`), and what lies between two numbers is rounded between their rounded values
(`Rounds.exists_mem_uIcc`).

Half a place is also as much as the unit interval gains by rounding, `2 ^ -53` above and
`2 ^ -1075` below; and it decides which doubles get there:

    1 - x          x from -2 ^ -53 to 1
    x / 255        x from -127 * 2 ^ -1074 to 255
    1 - min x 1    x not below -2 ^ -53, also if x is no number

The upper bounds gain nothing, since the next double is too far away (`add_place_le`).
-/
import PictureTree.Proofs.Scalar.Decimals

open Float.Model (Format)
open Float.Model.UnpackedFloat
open scoped PictureTree.Scalar

namespace PictureTree.Double

variable {x y z : Float} {q v w a b : ℚ}

/-! ## Doubles as multiples of a place -/

/-- A place that a double keeps. -/
def Keeps (p : ℤ) (v : ℚ) : Prop := p ≤ -1074 ∨ 2 ^ (p + 52) ≤ |v|

/-- A double is a multiple of each place that it keeps, and an even one if its last bit is zero. -/
theorem exists_eq_mul (h : value? x = some v) {p : ℤ} (hp : Keeps p v) :
    ∃ k : ℤ, v = k * 2 ^ p ∧ (isEven x = true → Even k) := by
  rcases parts_of_value? h with ⟨s, -, rfl⟩ | ⟨s, m, e, hm, hparts, rfl, hcanonical⟩
  · exact ⟨0, by simp⟩
  · have he : p ≤ e := by
      rcases hp with hp | hp
      · exact hp.trans hcanonical.least
      · rw [abs_withSign, abs_of_nonneg (by positivity)] at hp
        have hlt : (2 : ℚ) ^ (p + 52) < 2 ^ (53 + e) := by
          calc (2 : ℚ) ^ (p + 52) ≤ m * 2 ^ e := hp
            _ < 2 ^ 53 * 2 ^ e := by
                gcongr
                exact_mod_cast hcanonical.fits
            _ = 2 ^ (53 + e) := two_pow_mul_zpow 53 e
        have := (zpow_lt_zpow_iff_right₀ (one_lt_two : (1 : ℚ) < 2)).mp hlt
        omega
    obtain ⟨j, rfl⟩ := Int.le.dest he
    have hvalue : (m * 2 ^ (p + j) : ℚ) = (m * 2 ^ j : ℤ) * 2 ^ p := by
      rw [zpow_add₀ two_ne_zero, zpow_natCast]
      push_cast
      ring
    have heven : isEven x = true → Even (m * 2 ^ j : ℤ) := by
      intro h
      rw [isEven, hparts] at h
      have hbit : m % 2 = 0 := beq_iff_eq.mp h
      exact Even.mul_right (by exact_mod_cast Nat.even_iff.mpr hbit) _
    cases s with
    | positive => exact ⟨m * 2 ^ j, hvalue, heven⟩
    | negative =>
        refine ⟨-(m * 2 ^ j), ?_, fun h => (heven h).neg⟩
        rw [Int.cast_neg, neg_mul, ← hvalue]
        rfl

/-- From a multiple of a place to the doubles above it that keep the place it is a whole place
at least. -/
theorem add_place_le (h : value? x = some v) {p k : ℤ} (hp : Keeps p v) (hk : k * 2 ^ p < v) :
    (k + 1) * 2 ^ p ≤ v := by
  obtain ⟨j, rfl, -⟩ := exists_eq_mul h hp
  have hpower : (0 : ℚ) < 2 ^ p := by positivity
  have hlt : k < j := by exact_mod_cast lt_of_mul_lt_mul_right hk hpower.le
  gcongr
  exact_mod_cast hlt

/-! ## What is rounded to a double -/

theorem parts_ne_infinity (hv : value? x = some v) (s : Sign) : parts x ≠ .infinity s := by
  intro hparts
  rw [value?, hparts] at hv
  cases hv

theorem Rounds.exists_value? (h : Rounds q x) (hq : |q| < bound) : ∃ v, value? x = some v := by
  cases h with
  | nearest v hvalue _ _ _ => exact ⟨v, hvalue⟩
  | infinite s hbound _ _ => exact absurd hq (not_lt.mpr hbound)

theorem Rounds.abs_lt_bound (h : Rounds q x) (hv : value? x = some v) : |q| < bound := by
  cases h with
  | nearest _ _ hbound _ _ => exact hbound
  | infinite s _ hparts _ => exact absurd hparts (parts_ne_infinity hv s)

theorem Rounds.abs_sub_le (h : Rounds q x) (hv : value? x = some v) (hw : value? y = some w) :
    |q - v| ≤ |q - w| := by
  cases h with
  | nearest v' hvalue _ hnear _ =>
      obtain rfl := Option.some.inj (hv.symm.trans hvalue)
      exact hnear y w hw
  | infinite s _ hparts _ => exact absurd hparts (parts_ne_infinity hv s)

/-- Of two doubles that are equally near to a number it is rounded to an even one. -/
theorem Rounds.isEven_of_tie (h : Rounds q x) (hv : value? x = some v) (hw : value? y = some w)
    (hne : w ≠ v) (htie : |q - v| = |q - w|) : isEven x = true := by
  cases h with
  | nearest v' hvalue _ _ heven =>
      obtain rfl := Option.some.inj (hv.symm.trans hvalue)
      exact heven y w hw hne htie
  | infinite s _ hparts _ => exact absurd hparts (parts_ne_infinity hv s)

/-- What lies below a double is not rounded beyond it. -/
theorem Rounds.le_of_le (h : Rounds q x) (hv : value? x = some v) (hw : value? y = some w)
    (hle : q ≤ w) : v ≤ w := by
  have hnear := h.abs_sub_le hv hw
  by_contra hlt
  rw [abs_of_nonpos (by linarith), abs_of_nonpos (by linarith)] at hnear
  linarith

theorem Rounds.ge_of_ge (h : Rounds q x) (hv : value? x = some v) (hw : value? y = some w)
    (hge : w ≤ q) : w ≤ v := by
  have hnear := h.abs_sub_le hv hw
  by_contra hlt
  rw [abs_of_nonneg (by linarith), abs_of_nonneg (by linarith)] at hnear
  linarith

/-- Up to half a place above an even multiple of the place, numbers are not rounded beyond it. -/
theorem Rounds.le_iff {k p : ℤ} (h : Rounds q x) (hv : value? x = some v)
    (hy : value? y = some ((k : ℚ) * 2 ^ p)) (hz : value? z = some (((k : ℚ) + 1) * 2 ^ p))
    (hp : p ≤ -1074 ∨ (2 ^ (p + 52) : ℚ) ≤ k * 2 ^ p) (heven : Even k) :
    v ≤ k * 2 ^ p ↔ q ≤ k * 2 ^ p + 2 ^ p / 2 := by
  have hplace : (0 : ℚ) < 2 ^ p := by positivity
  have hnext : ((k : ℚ) + 1) * 2 ^ p = k * 2 ^ p + 2 ^ p := by ring
  rw [hnext] at hz
  generalize hc : (k * 2 ^ p : ℚ) = c at hy hz hp
  constructor
  · intro hle
    by_contra hfar
    have hnear := h.abs_sub_le hv hz
    rw [abs_of_pos (by linarith)] at hnear
    rcases le_abs.mp hnear with hnear | hnear <;> linarith
  · intro hle
    by_contra hgt
    have hgt := not_le.mp hgt
    have hkeeps : Keeps p v := hp.imp_right fun hp => by
      have : (0 : ℚ) < 2 ^ (p + 52) := by positivity
      rw [abs_of_pos (by linarith)]
      linarith
    have hstep : c + 2 ^ p ≤ v := by
      have := add_place_le hv hkeeps (hc.trans_lt hgt)
      rwa [hnext, hc] at this
    have hqc : c < q := not_le.mp fun hqc => hgt.not_ge (h.le_of_le hv hy hqc)
    have hnear := h.abs_sub_le hv hy
    rw [abs_of_neg (by linarith), abs_of_pos (by linarith)] at hnear
    -- half way to the next multiple, which is odd
    have hvc : v = c + 2 ^ p := by linarith
    have htie : |q - v| = |q - c| := by
      rw [abs_of_neg (by linarith), abs_of_pos (by linarith)]
      linarith
    obtain ⟨j, hj, hjeven⟩ := exists_eq_mul hv hkeeps
    have hjk : j = k + 1 := by
      have : (j : ℚ) * 2 ^ p = (k + 1) * 2 ^ p := by rw [← hj, hvc, hnext, hc]
      exact_mod_cast mul_right_cancel₀ hplace.ne' this
    have hodd := hjeven (h.isEven_of_tie hv hy hgt.ne htie)
    rw [hjk] at hodd
    exact (Int.not_even_iff_odd.mpr heven.add_one) hodd

/-! ## Rounding is a monotone function -/

theorem value?_zero : value? (@OfNat.ofNat Float 0 (Scalar.instOfNat 0)) = some 0 := rfl

/-- A double that is not negative is zero, or a mantissa times a power of two. -/
theorem parts_of_nonneg (h : value? x = some v) (hnonneg : 0 ≤ v) :
    (∃ s, parts x = .zero s ∧ v = 0) ∨
      ∃ m e hm, parts x = .finite .positive m e hm ∧ v = m * 2 ^ e ∧ Canonical m e := by
  rcases parts_of_value? h with hzero | ⟨s, m, e, hm, hparts, rfl, hcanonical⟩
  · exact .inl hzero
  · cases s with
    | negative =>
        have hpos : (0 : ℚ) < m * 2 ^ e := by positivity
        exact absurd hnonneg (not_le.mpr (neg_lt_zero.mpr hpos))
    | positive => exact .inr ⟨m, e, hm, hparts, rfl, hcanonical⟩

/-- An even double that is not negative is an even multiple of a place, and the next multiple is a
double too. -/
theorem exists_next (hv : value? x = some v) (hnonneg : 0 ≤ v) (heven : isEven x = true) :
    ∃ (k p : ℤ) (z : Float), v = (k : ℚ) * 2 ^ p ∧ Even k ∧
      (p ≤ -1074 ∨ (2 ^ (p + 52) : ℚ) ≤ v) ∧ value? z = some (((k : ℚ) + 1) * 2 ^ p) := by
  rcases parts_of_nonneg hv hnonneg with ⟨s, -, rfl⟩ | ⟨m, e, hm, hparts, rfl, hcanonical⟩
  · have hleast : Canonical 1 (-1074) := ⟨by decide, by decide, .inl rfl⟩
    obtain ⟨z, hz⟩ := exists_value?_eq one_pos hleast (by decide) .positive
    exact ⟨0, -1074, z, by simp, .zero, .inl le_rfl, by simpa [withSign] using hz⟩
  · have hbit : m % 2 = 0 := by
      rw [isEven, hparts] at heven
      exact beq_iff_eq.mp heven
    -- the largest mantissa is odd
    have hnext : Canonical (m + 1) e := by
      have hfits := hcanonical.fits
      exact ⟨by omega, hcanonical.least, hcanonical.full.imp_right fun h => by omega⟩
    obtain ⟨z, hz⟩ := exists_value?_eq m.succ_pos hnext (bounds_of_unpack hparts).2 .positive
    refine ⟨m, e, z, rfl, ?_, ?_, ?_⟩
    · exact_mod_cast Nat.even_iff.mpr hbit
    · refine hcanonical.full.imp (fun h => h.le) fun hfull => ?_
      calc (2 : ℚ) ^ (e + 52) = 2 ^ 52 * 2 ^ e := by
            rw [add_comm]
            exact (two_pow_mul_zpow 52 e).symm
        _ ≤ m * 2 ^ e := by
            gcongr
            exact_mod_cast hfull
    · rw [hz]
      show some (((m + 1 : ℕ) : ℚ) * 2 ^ e) = _
      push_cast
      rfl

/-- Half way to the next double is the end of what is rounded to an even one. -/
theorem Rounds.le_of_nonneg (hx : Rounds q x) (hy : Rounds q y) (hv : value? x = some v)
    (hw : value? y = some w) (hnonneg : 0 ≤ v) : w ≤ v := by
  by_contra hlt
  have htie : |q - v| = |q - w| := le_antisymm (hx.abs_sub_le hv hw) (hy.abs_sub_le hw hv)
  have heven := hx.isEven_of_tie hv hw (not_le.mp hlt).ne' htie
  obtain ⟨k, p, z, rfl, hk, hp, hz⟩ := exists_next hv hnonneg heven
  have hhalf := (hx.le_iff hv hv hz hp hk).mp le_rfl
  exact hlt ((hy.le_iff hw hv hz hp hk).mpr hhalf)

theorem Rounds.value_le (hx : Rounds q x) (hy : Rounds q y) (hv : value? x = some v)
    (hw : value? y = some w) : w ≤ v := by
  rcases le_total 0 q with hq | hq
  · exact hx.le_of_nonneg hy hv hw (hx.ge_of_ge hv value?_zero hq)
  · have hnonpos := hy.le_of_le hw value?_zero hq
    exact neg_le_neg_iff.mp
      (hy.neg.le_of_nonneg hx.neg (value?_neg hw) (value?_neg hv) (neg_nonneg.mpr hnonpos))

/-- A number is rounded to one number only. -/
theorem Rounds.value_eq (hx : Rounds q x) (hy : Rounds q y) (hv : value? x = some v)
    (hw : value? y = some w) : v = w :=
  le_antisymm (hy.value_le hx hw hv) (hx.value_le hy hv hw)

/-- Rounding keeps the order. -/
theorem Rounds.mono {r : ℚ} (hx : Rounds q x) (hy : Rounds r y) (hv : value? x = some v)
    (hw : value? y = some w) (h : q ≤ r) : v ≤ w := by
  rcases h.eq_or_lt with rfl | hlt
  · exact (hx.value_eq hy hv hw).le
  · by_contra hgt
    have hnear := sq_le_sq.mpr (hx.abs_sub_le hv hw)
    have hnear' := sq_le_sq.mpr (hy.abs_sub_le hw hv)
    have hproduct := mul_pos (sub_pos.mpr hlt) (sub_pos.mpr (not_le.mp hgt))
    linarith

/-- What lies between two numbers is rounded to a double, and between the doubles that these are
rounded to. -/
theorem Rounds.exists_mem_uIcc {r t b c : ℚ} (hx : Rounds q x) (hy : Rounds r y) (hz : Rounds t z)
    (hb : value? y = some b) (hc : value? z = some c) (h : q ∈ Set.uIcc r t) :
    ∃ v, value? x = some v ∧ v ∈ Set.uIcc b c := by
  have hr := abs_lt.mp (hy.abs_lt_bound hb)
  have ht := abs_lt.mp (hz.abs_lt_bound hc)
  rcases Set.mem_uIcc.mp h with ⟨hlow, hhigh⟩ | ⟨hlow, hhigh⟩
  · obtain ⟨v, hv⟩ := hx.exists_value? (abs_lt.mpr ⟨by linarith, by linarith⟩)
    exact ⟨v, hv, Set.mem_uIcc.mpr (.inl ⟨hy.mono hx hb hv hlow, hx.mono hz hv hc hhigh⟩)⟩
  · obtain ⟨v, hv⟩ := hx.exists_value? (abs_lt.mpr ⟨by linarith, by linarith⟩)
    exact ⟨v, hv, Set.mem_uIcc.mpr (.inr ⟨hz.mono hx hc hv hlow, hx.mono hy hv hb hhigh⟩)⟩

theorem mul_mem_uIcc (q : ℚ) {r t b : ℚ} (h : b ∈ Set.uIcc r t) :
    q * b ∈ Set.uIcc (q * r) (q * t) := by
  rw [← Set.image_const_mul_uIcc]
  exact Set.mem_image_of_mem _ h

theorem sub_mem_uIcc (q : ℚ) {r t b : ℚ} (h : b ∈ Set.uIcc r t) :
    q - b ∈ Set.uIcc (q - r) (q - t) := by
  rw [← Set.image_const_sub_uIcc]
  exact Set.mem_image_of_mem _ h

/-! ## The unit interval -/

/-- A double between two numbers. -/
def Within (low high : ℚ) (x : Float) : Prop := ∃ v, value? x = some v ∧ low ≤ v ∧ v ≤ high

theorem within_iff {low high : ℚ} (h : value? x = some v) :
    Within low high x ↔ low ≤ v ∧ v ≤ high := by
  constructor
  · rintro ⟨w, hw, hwithin⟩
    obtain rfl := Option.some.inj (h.symm.trans hw)
    exact hwithin
  · exact fun hwithin => ⟨v, h, hwithin⟩

theorem not_within_of_none {low high : ℚ} (h : value? x = none) : ¬ Within low high x := by
  rintro ⟨v, hv, -⟩
  exact Option.some_ne_none _ (hv.symm.trans h)

theorem value?_one : value? (@OfNat.ofNat Float 1 (Scalar.instOfNat 1)) = some 1 :=
  (value?_literal one_pos (by decide)).trans (congrArg some Nat.cast_one)

theorem value?_255 : value? (@OfNat.ofNat Float 255 (Scalar.instOfNat 255)) = some 255 :=
  (value?_literal (by decide) (by decide)).trans (congrArg some (Nat.cast_ofNat))

/-- What lies between two doubles is rounded to a double between them. -/
theorem Rounds.within {low high : ℚ} (hx : Rounds q x) (hlow : value? y = some low)
    (hhigh : value? z = some high) (hle : low ≤ q) (hge : q ≤ high) : Within low high x := by
  obtain ⟨v, hv, hmem⟩ := hx.exists_mem_uIcc (rounds_self hlow) (rounds_self hhigh) hlow hhigh
    (Set.mem_uIcc_of_le hle hge)
  rw [Set.uIcc_of_le (hle.trans hge)] at hmem
  exact ⟨v, hv, hmem.1, hmem.2⟩

/-- Only finite doubles lie in the unit interval. -/
theorem inUnit_iff : Scalar.inUnit x = true ↔ Within 0 1 x := by
  cases h : value? x with
  | some v =>
      rw [Scalar.inUnit, Bool.and_eq_true, le_iff value?_zero h, le_iff h value?_one, within_iff h]
  | none =>
      refine iff_of_false (fun hunit => ?_) (not_within_of_none h)
      have hunit : (Float.Model.UnpackedFloat.zero .positive).le (parts x) = true ∧
          (parts x).le (.finite .positive (2 ^ 52) (-52) (by decide)) = true := by
        rwa [Scalar.inUnit, Bool.and_eq_true, le_eq, le_eq] at hunit
      unfold value? at h
      cases hparts : parts x with
      | zero s => rw [hparts] at h; cases h
      | finite s m e hm => rw [hparts] at h; cases h
      | infinity s =>
          rw [hparts] at hunit
          cases s with
          | positive => cases hunit.2
          | negative => cases hunit.1
      | notANumber =>
          rw [hparts] at hunit
          cases hunit.1

theorem Rounds.le_one_iff (h : Rounds q x) (hv : value? x = some v) :
    v ≤ 1 ↔ q ≤ 1 + 2 ^ (-53 : ℤ) := by
  have hcanonical : Canonical (2 ^ 52 + 1) (-52) := ⟨by decide, by decide, .inr (by decide)⟩
  obtain ⟨z, hz⟩ := exists_value?_eq (by decide) hcanonical (by decide) .positive
  have hone : ((2 ^ 52 : ℤ) : ℚ) * 2 ^ (-52 : ℤ) = 1 := by norm_num
  have hiff := h.le_iff (k := 2 ^ 52) (p := -52) hv (value?_one.trans (by rw [hone]))
    (hz.trans (by norm_num [withSign])) (.inr (by norm_num)) (by decide)
  rw [hone] at hiff
  rw [hiff]
  norm_num

theorem Rounds.nonneg_iff (h : Rounds q x) (hv : value? x = some v) :
    0 ≤ v ↔ -2 ^ (-1075 : ℤ) ≤ q := by
  have hcanonical : Canonical 1 (-1074) := ⟨by decide, by decide, .inl rfl⟩
  obtain ⟨z, hz⟩ := exists_value?_eq (by decide) hcanonical (by decide) .positive
  have hhalf : (2 : ℚ) ^ (-1075 : ℤ) = 2 ^ (-1074 : ℤ) / 2 := by
    rw [div_eq_mul_inv, ← zpow_sub_one₀ two_ne_zero]
    rfl
  have hiff := h.neg.le_iff (k := 0) (p := -1074) (value?_neg hv)
    (value?_zero.trans (by simp)) (hz.trans (by simp [withSign])) (.inl le_rfl) (by decide)
  simp only [Int.cast_zero, zero_mul, zero_add] at hiff
  rw [hhalf, neg_le, ← hiff, neg_nonpos]

theorem two_lt_bound : (2 : ℚ) < bound := by
  have hplace : (1 : ℚ) ≤ 2 ^ (970 : ℤ) := one_le_zpow₀ one_le_two (by decide)
  calc (2 : ℚ) < (2 ^ 54 - 1) * 1 := by norm_num
    _ ≤ bound := mul_le_mul_of_nonneg_left hplace (by norm_num)

/-- What is rounded into the unit interval. -/
theorem Rounds.within_unit_iff (h : Rounds q x) :
    Within 0 1 x ↔ -2 ^ (-1075 : ℤ) ≤ q ∧ q ≤ 1 + 2 ^ (-53 : ℤ) := by
  constructor
  · rintro ⟨v, hv, hnonneg, hle⟩
    exact ⟨(h.nonneg_iff hv).mp hnonneg, (h.le_one_iff hv).mp hle⟩
  · intro ⟨hlow, hhigh⟩
    have hsmall : |q| < bound := by
      have hhalf : (2 : ℚ) ^ (-1075 : ℤ) ≤ 1 := zpow_le_one_of_nonpos₀ one_le_two (by decide)
      have hulp : (2 : ℚ) ^ (-53 : ℤ) ≤ 1 := zpow_le_one_of_nonpos₀ one_le_two (by decide)
      exact (abs_le.mpr ⟨by linarith, by linarith⟩).trans_lt two_lt_bound
    obtain ⟨v, hv⟩ := h.exists_value? hsmall
    exact ⟨v, hv, (h.nonneg_iff hv).mpr hlow, (h.le_one_iff hv).mpr hhigh⟩

/-! ## What is made of one double -/

theorem exists_value?_iff : (∃ v, value? x = some v) ↔ Scalar.isFinite x = true := by
  rw [isFinite_eq, value?]
  cases parts x with
  | zero s => exact iff_of_true ⟨_, rfl⟩ rfl
  | finite s m e hm => exact iff_of_true ⟨_, rfl⟩ rfl
  | infinity s => exact iff_of_false (by rintro ⟨v, h⟩; cases h) Bool.false_ne_true
  | notANumber => exact iff_of_false (by rintro ⟨v, h⟩; cases h) Bool.false_ne_true

theorem isFinite_right_of_mul (h : Scalar.isFinite (x * y) = true) : Scalar.isFinite y = true :=
  isFinite_left_of_mul (mul_comm x y ▸ h)

theorem isFinite_of_sub_parts {u t : Float.Model.UnpackedFloat}
    (h : (sub Format.binary64 u t).isFinite = true) : u.isFinite = true ∧ t.isFinite = true := by
  cases u with
  | zero | finite =>
      cases t with
      | zero | finite => exact ⟨rfl, rfl⟩
      | infinity | notANumber => cases h
  | infinity s =>
      cases t with
      | zero | finite | notANumber => cases h
      | infinity s' => cases s <;> cases s' <;> cases h
  | notANumber => cases t <;> cases h

/-- No difference with a double that is not finite is finite. -/
theorem isFinite_of_sub (h : Scalar.isFinite (x - y) = true) :
    Scalar.isFinite x = true ∧ Scalar.isFinite y = true := by
  obtain ⟨s, hs⟩ := isFinite_iff.mp h
  have hdifference : (sub Format.binary64 (parts x) (parts y)).isFinite = true :=
    isFinite_of_signed_pack hs
  rw [isFinite_eq, isFinite_eq]
  exact isFinite_of_sub_parts hdifference

/-- No quotient of a double that is not finite is finite. -/
theorem isFinite_left_of_div (h : Scalar.isFinite (x / y) = true) :
    Scalar.isFinite x = true := by
  obtain ⟨s, hs⟩ := isFinite_iff.mp h
  have hquotient : (div Format.binary64 (parts x) (parts y)).isFinite = true :=
    isFinite_of_signed_pack hs
  rw [isFinite_eq]
  cases hx : parts x with
  | zero | finite => rfl
  | infinity | notANumber =>
      rw [hx] at hquotient
      cases hy : parts y <;> (rw [hy] at hquotient; cases hquotient)

/-- Differences with one lie in the unit interval for numbers that do, and for numbers that are
too little below zero to change it. -/
theorem inUnit_one_sub {one : Float} (hone : value? one = some 1) :
    Scalar.inUnit (one - x) = true ↔ Within (-2 ^ (-53 : ℤ)) 1 x := by
  rw [inUnit_iff]
  constructor
  · rintro ⟨v, hv, hunit⟩
    have hfinite := (isFinite_of_sub (exists_value?_iff.mp ⟨v, hv⟩)).2
    obtain ⟨b, hb⟩ := exists_value?_iff.mpr hfinite
    obtain ⟨hlow, hhigh⟩ := (rounds_sub hone hb).within_unit_iff.mp ⟨v, hv, hunit⟩
    refine ⟨b, hb, by linarith, ?_⟩
    by_contra hgt
    -- the next double is too far above one
    have hgt : 1 < b := not_le.mp hgt
    have hkeeps : Keeps (-52) b := .inr (by norm_num; exact hgt.le.trans (le_abs_self b))
    have hstep := add_place_le (k := 2 ^ 52) hb hkeeps (by norm_num; exact hgt)
    have hsmall : (2 : ℚ) ^ (-1075 : ℤ) < 2 ^ (-52 : ℤ) :=
      zpow_lt_zpow_right₀ one_lt_two (by decide)
    have hnext : (((2 ^ 52 : ℤ) : ℚ) + 1) * 2 ^ (-52 : ℤ) = 1 + 2 ^ (-52 : ℤ) := by norm_num
    rw [hnext] at hstep
    linarith
  · rintro ⟨b, hb, hlow, hhigh⟩
    have hhalf : (0 : ℚ) < 2 ^ (-1075 : ℤ) := by positivity
    exact (rounds_sub hone hb).within_unit_iff.mpr ⟨by linarith, by linarith⟩

theorem within_one_sub (h : Within 0 1 x) : Within 0 1 (1 - x) := by
  obtain ⟨b, hb, hb₀, hb₁⟩ := h
  exact (rounds_sub value?_one hb).within value?_zero value?_one (sub_nonneg.mpr hb₁)
    (sub_le_self 1 hb₀)

/-- Quotients by 255 lie in the unit interval for numbers up to 255, and for numbers so little
below zero that the quotient is zero. -/
theorem inUnit_div_255 {d : Float} (hd : value? d = some 255) :
    Scalar.inUnit (x / d) = true ↔ Within (-127 * 2 ^ (-1074 : ℤ)) 255 x := by
  have hdouble : (2 : ℚ) ^ (-1074 : ℤ) = 2 * 2 ^ (-1075 : ℤ) := zpow_one_add₀ two_ne_zero (-1075)
  have hhalf : (0 : ℚ) < 2 ^ (-1075 : ℤ) := by positivity
  have h255 : (0 : ℚ) < 255 := by norm_num
  rw [inUnit_iff]
  constructor
  · rintro ⟨v, hv, hunit⟩
    have hfinite := isFinite_left_of_div (exists_value?_iff.mp ⟨v, hv⟩)
    obtain ⟨a, ha⟩ := exists_value?_iff.mpr hfinite
    have hrounds := rounds_div ha hd h255.ne'
    obtain ⟨hlow, hhigh⟩ := hrounds.within_unit_iff.mp ⟨v, hv, hunit⟩
    rw [le_div_iff₀ h255] at hlow
    rw [div_le_iff₀ h255] at hhigh
    refine ⟨a, ha, ?_, ?_⟩
    · -- a multiple of the lowest place
      by_contra hlt
      have hbelow : ((127 : ℤ) : ℚ) * 2 ^ (-1074 : ℤ) < -a := by
        rw [lt_neg, ← neg_mul]
        exact not_le.mp hlt
      have hstep := add_place_le (value?_neg ha) (.inl le_rfl) hbelow
      rw [Int.cast_ofNat] at hstep
      linarith
    · -- the next double is too far above 255
      by_contra hgt
      have hgt : 255 < a := not_le.mp hgt
      have hkeeps : Keeps (-45) a := .inr (by norm_num; linarith [le_abs_self a])
      have hstep := add_place_le (k := 255 * 2 ^ 45) ha hkeeps (by norm_num; exact hgt)
      norm_num at hstep hhigh
      linarith
  · rintro ⟨a, ha, hlow, hhigh⟩
    have hulp : (0 : ℚ) < 2 ^ (-53 : ℤ) := by positivity
    refine (rounds_div ha hd h255.ne').within_unit_iff.mpr ⟨?_, ?_⟩
    · rw [le_div_iff₀ h255]
      linarith
    · rw [div_le_iff₀ h255]
      linarith

/-- A double below a number. -/
def Below (low : ℚ) (x : Float) : Prop :=
  parts x = .infinity .negative ∨ ∃ v, value? x = some v ∧ v < low

theorem below_iff {low : ℚ} (h : value? x = some v) : Below low x ↔ v < low := by
  constructor
  · rintro (hparts | ⟨w, hw, hlt⟩)
    · exact absurd hparts (parts_ne_infinity h _)
    · obtain rfl := Option.some.inj (h.symm.trans hw)
      exact hlt
  · exact fun hlt => .inr ⟨v, h, hlt⟩

theorem isNaN_eq (x : Float) : Scalar.isNaN x = (parts x).isNaN := rfl

theorem isNaN_eq_false (h : value? x = some v) : Scalar.isNaN x = false := by
  have hfinite := exists_value?_iff.mp ⟨v, h⟩
  rw [Scalar.isFinite, Bool.and_eq_true, Bool.not_eq_true'] at hfinite
  exact hfinite.1

theorem lt_infinity (hx : value? x = some v) {s : Sign} (hy : parts y = .infinity s) :
    Scalar.lt x y = (s == .positive) := by
  rw [lt_eq, hy]
  rcases parts_of_value? hx with ⟨t, hpx, -⟩ | ⟨t, m, e, hm, hpx, -, -⟩ <;> rw [hpx] <;>
    cases s <;> cases t <;> rfl

theorem not_below_of_none {low : ℚ} (h : value? x = none)
    (hparts : parts x ≠ .infinity .negative) : ¬ Below low x := by
  rintro (hinfinite | ⟨v, hv, -⟩)
  · exact hparts hinfinite
  · exact Option.some_ne_none _ (hv.symm.trans h)

/-- What exceeds one is cut off, infinity and no number with it. -/
theorem within_min_one {low : ℚ} (hlow : low ≤ 1) {one : Float} (hone : value? one = some 1) :
    Within low 1 (Scalar.min x one) ↔ ¬ Below low x := by
  have hwithin := (within_iff hone).mpr ⟨hlow, le_rfl⟩
  have hmin : Scalar.min x one =
      if Scalar.isNaN x then one else if Scalar.lt one x then one else x := by
    rw [Scalar.min, isNaN_eq_false hone]
    rfl
  rw [hmin]
  cases hparts : parts x with
  | zero | finite =>
      obtain ⟨v, hv⟩ := exists_value?_iff.mpr (by rw [isFinite_eq, hparts]; rfl)
      rw [isNaN_eq_false hv, if_neg Bool.false_ne_true, below_iff hv, not_lt]
      split
      · next hlt => exact iff_of_true hwithin (hlow.trans ((lt_iff hone hv).mp hlt).le)
      · next hle =>
          have hle := not_lt.mp ((lt_iff hone hv).not.mp hle)
          rw [within_iff hv]
          exact and_iff_left hle
  | infinity s =>
      have hvalue : value? x = none := by rw [value?, hparts]; rfl
      have hnan : Scalar.isNaN x = false := by rw [isNaN_eq, hparts]; rfl
      rw [hnan, lt_infinity hone hparts]
      cases s with
      | positive => exact iff_of_true hwithin (not_below_of_none hvalue (by simp [hparts]))
      | negative => exact iff_of_false (not_within_of_none hvalue) (not_not.mpr (.inl hparts))
  | notANumber =>
      have hvalue : value? x = none := by rw [value?, hparts]; rfl
      have hnan : Scalar.isNaN x = true := by rw [isNaN_eq, hparts]; rfl
      rw [hnan]
      exact iff_of_true hwithin (not_below_of_none hvalue (by simp [hparts]))

end PictureTree.Double
