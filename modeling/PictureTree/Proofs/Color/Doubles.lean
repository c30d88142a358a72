/-
# `Proofs.Color.Doubles` — which values a colour model takes

In exact arithmetic a model takes the values in range and those that it hides.  In doubles every
operation is rounded, and a model takes what is rounded into its range as well.  `Model.Takes`
lists the values for each model.

Four of the models make each component of one value, or of an ink and black.  For `hsb` the third
component is what is left of the brightness under a part of the saturation.  Rounding keeps the
order, so it stays between what is left of the brightness without saturation and under all of it
(`within_third`), which are the other two.
-/
import PictureTree.Proofs.Color.Ranges
import PictureTree.Proofs.Scalar.Floors

open scoped PictureTree.Scalar

namespace PictureTree

namespace Color

open Double (Within Below)

/-- What a model takes in doubles: its range, and as much beyond it as is rounded into it; but of
inks that are printed over by black, whatever does not come out below, and of a saturation what
leaves a brightness in range. -/
def Model.Takes : Model → List Float → Prop
  | .rgb, [r, g, b] => ∀ x ∈ [r, g, b], Within 0 1 x
  | .rgb255, [r, g, b] => ∀ x ∈ [r, g, b], Within (-127 * 2 ^ (-1074 : ℤ)) 255 x
  | .gray, [v] => Within 0 1 v
  | .cmyk, [c, m, y, k] => ∀ ink ∈ [c, m, y], ¬ Below (-2 ^ (-53 : ℤ)) (ink + k)
  | .cmy, [c, m, y] => ∀ ink ∈ [c, m, y], Within (-2 ^ (-53 : ℤ)) 1 ink
  | .hsb, [h, s, v] => Scalar.isFinite h = true ∧ Within 0 1 v ∧ Within 0 1 (v * (1 - s))
  | _, _ => False

/-! ## The third component of a hue -/

section Hue

variable {h s v f : Float}

/-- What is left of a brightness under a part of the saturation is in range if the brightness is,
and what is left of it under all of the saturation. -/
theorem within_third (hf : Within 0 1 f) (hv : Within 0 1 v) (hp : Within 0 1 (v * (1 - s))) :
    Within 0 1 (v * (1 - s * f)) := by
  obtain ⟨p, hp, hp₀, hp₁⟩ := hp
  have hrest := Double.isFinite_right_of_mul (Double.exists_value?_iff.mp ⟨p, hp⟩)
  obtain ⟨saturation, hs⟩ := Double.exists_value?_iff.mpr (Double.isFinite_of_sub hrest).2
  obtain ⟨rest, hrest⟩ := Double.exists_value?_iff.mpr hrest
  obtain ⟨part, hf, hf₀, hf₁⟩ := hf
  obtain ⟨brightness, hv, hv₀, hv₁⟩ := hv
  have hone := Double.value?_one
  -- each operation keeps what lies between the two ends
  have hpart : part ∈ Set.uIcc 0 1 := Set.mem_uIcc_of_le hf₀ hf₁
  have hshare := Double.mul_mem_uIcc saturation hpart
  rw [mul_zero, mul_one] at hshare
  obtain ⟨share, hsf, hshare⟩ := (Double.rounds_mul hs hf).exists_mem_uIcc
    (Double.rounds_self Double.value?_zero) (Double.rounds_self hs) Double.value?_zero hs hshare
  have hleft := Double.sub_mem_uIcc 1 hshare
  rw [sub_zero] at hleft
  obtain ⟨left, hsub, hleft⟩ := (Double.rounds_sub hone hsf).exists_mem_uIcc
    (Double.rounds_self hone) (Double.rounds_sub hone hs) hone hrest hleft
  have hthird := Double.mul_mem_uIcc brightness hleft
  rw [mul_one] at hthird
  obtain ⟨third, hmul, hthird⟩ := (Double.rounds_mul hv hsub).exists_mem_uIcc
    (Double.rounds_self hv) (Double.rounds_mul hv hrest) hv hp hthird
  refine ⟨third, hmul, ?_, ?_⟩
  · exact (le_inf hv₀ hp₀).trans hthird.1
  · exact hthird.2.trans (sup_le hv₁ hp₁)

/-- A third component that is a number needs a hue that is one. -/
theorem isFinite_of_fract_mul {x : Float}
    (hfinite : Scalar.isFinite (Scalar.fract (Scalar.fract h * x)) = true) :
    Scalar.isFinite h = true := by
  have hturn := Double.isFinite_left_of_mul (Double.isFinite_of_sub hfinite).1
  exact (Double.isFinite_of_sub hturn).1

theorem within_sector (hh : Scalar.isFinite h = true) :
    Within 0 1 (Scalar.fract (Scalar.fract h * 6)) := by
  obtain ⟨a, ha⟩ := Double.exists_value?_iff.mpr hh
  obtain ⟨b, hb, hb₀, hb₁⟩ := Double.within_fract ha
  have hsix := Double.value?_literal (n := 6) (by decide) (by decide)
  obtain ⟨c, hc, -⟩ := (Double.rounds_mul hb hsix).within Double.value?_zero hsix
    (by positivity) (mul_le_of_le_one_left (by positivity) hb₁)
  exact Double.within_fract hc

/-- The components are in range if, and only if, the two that are made without the hue are. -/
theorem inUnit_hsbComponents_iff :
    (Scalar.inUnit (hsbComponents h s v).1 = true ∧ Scalar.inUnit (hsbComponents h s v).2.1 = true ∧
      Scalar.inUnit (hsbComponents h s v).2.2 = true) ↔
      Scalar.isFinite h = true ∧ Within 0 1 v ∧ Within 0 1 (v * (1 - s)) := by
  obtain ⟨f, hf, hcomponents⟩ := exists_third h s v
  simp only [Double.inUnit_iff]
  rw [hcomponents]
  constructor
  · rintro ⟨hv, hp, a, ha, -⟩
    have hleft := Double.isFinite_right_of_mul (Double.exists_value?_iff.mp ⟨a, ha⟩)
    have hfinite := Double.isFinite_right_of_mul (Double.isFinite_of_sub hleft).2
    refine ⟨?_, hv, hp⟩
    rcases hf with rfl | rfl
    · exact isFinite_of_fract_mul hfinite
    · exact isFinite_of_fract_mul (Double.isFinite_of_sub hfinite).2
  · intro ⟨hh, hv, hp⟩
    have hsector := within_sector hh
    have hf : Within 0 1 f := by
      rcases hf with rfl | rfl
      · exact hsector
      · exact Double.within_one_sub hsector
    exact ⟨hv, hp, within_third hf hv hp⟩

end Hue

/-! ## Models -/

theorem Model.components?_takes_iff (m : Model) (xs : List Float) :
    (∃ c, m.components? xs = some c ∧
      Scalar.inUnit c.1 = true ∧ Scalar.inUnit c.2.1 = true ∧ Scalar.inUnit c.2.2 = true) ↔
      m.Takes xs := by
  have hlow : -2 ^ (-53 : ℤ) ≤ (1 : ℚ) := by norm_num
  have hone := Double.value?_one
  fun_cases Model.components? m xs with
  | case1 r g b => simp [Double.inUnit_iff, Takes]
  | case2 r g b =>
      simp only [Takes, List.forall_mem_cons, ← Double.inUnit_div_255 Double.value?_255]
      simp
  | case3 v => simp [Double.inUnit_iff, Takes]
  | case4 c m y k =>
      simp only [Takes, List.forall_mem_cons, ← Double.within_min_one hlow hone,
        ← Double.inUnit_one_sub hone, ← underInk.eq_1]
      simp
  | case5 c m y =>
      simp only [Takes, List.forall_mem_cons, ← Double.inUnit_one_sub hone]
      simp
  | case6 h s v =>
      rw [Takes, ← inUnit_hsbComponents_iff]
      simp
  | case7 m xs h1 h2 h3 h4 h5 h6 =>
      refine iff_of_false (by simp) ?_
      unfold Takes
      grind

/-- Where the ranges of a model end; a hue has no range. -/
def Model.limits : Model → List (Option ℚ)
  | .rgb => [some 1, some 1, some 1]
  | .rgb255 => [some 255, some 255, some 255]
  | .gray => [some 1]
  | .cmyk => [some 1, some 1, some 1, some 1]
  | .cmy => [some 1, some 1, some 1]
  | .hsb => [none, some 1, some 1]

/-- A double in a range, or a finite one where there is no range. -/
def InLimit : Option ℚ → Float → Prop
  | some high, x => Within 0 high x
  | none, x => Scalar.isFinite x = true

/-- No sum of two amounts in range is below it. -/
theorem not_below_add {x y : Float} (hx : Within 0 1 x) (hy : Within 0 1 y) :
    ¬ Below (-2 ^ (-53 : ℤ)) (x + y) := by
  obtain ⟨a, ha, ha₀, ha₁⟩ := hx
  obtain ⟨b, hb, hb₀, hb₁⟩ := hy
  have htwo := Double.value?_literal (n := 2) (by decide) (by decide)
  obtain ⟨v, hv, hv₀, -⟩ := (Double.rounds_add ha hb).within Double.value?_zero htwo
    (add_nonneg ha₀ hb₀) (by push_cast; linarith)
  have hulp : (0 : ℚ) < 2 ^ (-53 : ℤ) := by positivity
  rw [Double.below_iff hv]
  linarith

/-- No amount in range leaves more than there is, or less than nothing. -/
theorem within_mul_one_sub {s v : Float} (hs : Within 0 1 s) (hv : Within 0 1 v) :
    Within 0 1 (v * (1 - s)) := by
  obtain ⟨b, hb, hb₀, hb₁⟩ := hv
  obtain ⟨c, hc, hc₀, hc₁⟩ := Double.within_one_sub hs
  exact (Double.rounds_mul hb hc).within Double.value?_zero Double.value?_one
    (mul_nonneg hb₀ hc₀) (mul_le_one₀ hb₁ hc₀ hc₁)

theorem within_of_le {low high : ℚ} (hlow : low ≤ 0) {x : Float} (h : Within 0 high x) :
    Within low high x := by
  obtain ⟨v, hv, hv₀, hv₁⟩ := h
  exact ⟨v, hv, hlow.trans hv₀, hv₁⟩

/-- Values in range are always taken. -/
theorem Model.takes_of_limits {m : Model} {xs : List Float}
    (h : List.Forall₂ InLimit m.limits xs) : m.Takes xs := by
  have hthree {P : Float → Prop} {x y z : Float} (hx : P x) (hy : P y) (hz : P z) :
      ∀ t ∈ [x, y, z], P t := by
    simp [hx, hy, hz]
  cases m with
  | rgb =>
      obtain _ | ⟨hr, _ | ⟨hg, _ | ⟨hb, _ | _⟩⟩⟩ := h
      exact hthree hr hg hb
  | rgb255 =>
      obtain _ | ⟨hr, _ | ⟨hg, _ | ⟨hb, _ | _⟩⟩⟩ := h
      have hlow : -127 * 2 ^ (-1074 : ℤ) ≤ (0 : ℚ) :=
        mul_nonpos_of_nonpos_of_nonneg (by norm_num) (by positivity)
      exact hthree (within_of_le hlow hr) (within_of_le hlow hg) (within_of_le hlow hb)
  | gray =>
      obtain _ | ⟨hv, _ | _⟩ := h
      exact hv
  | cmyk =>
      obtain _ | ⟨hc, _ | ⟨hm, _ | ⟨hy, _ | ⟨hk, _ | _⟩⟩⟩⟩ := h
      exact hthree (not_below_add hc hk) (not_below_add hm hk) (not_below_add hy hk)
  | cmy =>
      obtain _ | ⟨hc, _ | ⟨hm, _ | ⟨hy, _ | _⟩⟩⟩ := h
      have hlow : -2 ^ (-53 : ℤ) ≤ (0 : ℚ) := neg_nonpos.mpr (by positivity)
      exact hthree (within_of_le hlow hc) (within_of_le hlow hm) (within_of_le hlow hy)
  | hsb =>
      obtain _ | ⟨hh, _ | ⟨hs, _ | ⟨hv, _ | _⟩⟩⟩ := h
      exact ⟨hh, hv, within_mul_one_sub hs hv⟩

theorem exists_ofModel?_double_iff (m : Model) (values : String) :
    (∃ c : Color Float, ofModel? m.name values = .ok c) ↔
      ∃ ns, numbers? values.toList = some ns ∧ m.Takes (ns.map Scalar.ofNumeral) := by
  have hone : Scalar.inUnit (@OfNat.ofNat Float 1 (Scalar.instOfNat 1)) = true :=
    Double.inUnit_iff.mpr ⟨1, Double.value?_one, zero_le_one, le_rfl⟩
  rw [exists_ofModel?_iff hone]
  simp only [← Model.components?_takes_iff]

/-- A conversion succeeds if, and only if, the values are numbers, as many as the model has and
each in its range, or ones that the model hides; in doubles, those in range and those that are
rounded into it.  All else is reported as invalid values. -/
theorem ofModel?_range (m : Model) (values : String) :
    ((∃ c : Color (Extended ℝ), ofModel? m.name values = .ok c) ↔
      ∃ ns, numbers? values.toList = some ns ∧
        (m.InRange (ns.map Scalar.ofNumeral) ∨ m.Hides (ns.map Scalar.ofNumeral))) ∧
    ((∃ c : Color Float, ofModel? m.name values = .ok c) ↔
      ∃ ns, numbers? values.toList = some ns ∧ m.Takes (ns.map Scalar.ofNumeral)) ∧
    (∀ xs, List.Forall₂ InLimit m.limits xs → m.Takes xs) ∧
    ∀ e, (ofModel? m.name values : Except ResolveError (Color Float)) = .error e →
      e = .invalidColorValues m.name values :=
  ⟨exists_ofModel?_extended_iff m values, exists_ofModel?_double_iff m values,
    fun _ h => Model.takes_of_limits h, fun _ h => eq_of_ofModel?_name_error h⟩

/-- Ink beyond full ink is not found out, nor ink that is no number. -/
theorem ofModel?_ink_beyond_full :
    ((ofModel? "cmyk" "2,0,0,0" : Except ResolveError (Color Float)).toOption.isSome = true ∧
      (numbers? "2,0,0,0".toList).map
          (List.map fun n => Scalar.inUnit (Scalar.ofNumeral n : Float))
        = some [false, true, true, true]) ∧
    (ofModel? "cmyk" "nan,0,0,0" : Except ResolveError (Color Float)).toOption.isSome = true ∧
      (numbers? "nan,0,0,0".toList).map
          (List.map fun n => Scalar.isNaN (Scalar.ofNumeral n : Float))
        = some [true, false, false, false] := by
  decide +kernel

end Color

end PictureTree
