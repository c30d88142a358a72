/-
# `Proofs.Color.Ranges` — which values a colour model takes

The values of a model are not looked at.  They are converted to red, green and blue, and it
is these that have to lie in the unit interval.  So a value out of range is found out if, and
only if, it takes one of the three out of range with it:

    rgb, gray    they are the three, in any arithmetic
    RGB, cmy     each of them makes one of the three
    cmyk         what exceeds full ink is cut off, whatever it is; so only sums of ink and
                 black below zero are found out
    hsb          the three are the brightness, what the saturation leaves of it, and a mean of
                 these two; without brightness no saturation is found out

`Model.InRange` says what the values should be, and `Model.Hides` which others pass.
-/
import PictureTree.Proofs.Color.Gamut
import PictureTree.Scalar.Double

namespace PictureTree.Extended

/-! ## Intervals -/

/-- A number between two others. -/
def Between (low high : ℝ) (x : Extended ℝ) : Prop := ∃ a, x = number a ∧ low ≤ a ∧ a ≤ high

@[simp] theorem between_number {low high a : ℝ} :
    Between low high (number a) ↔ low ≤ a ∧ a ≤ high :=
  ⟨fun ⟨_, hb, h⟩ => number.inj hb ▸ h, fun h => ⟨a, rfl, h⟩⟩

@[simp] theorem not_between_infinity {low high : ℝ} (s : Bool) : ¬ Between low high (infinity s) :=
  fun ⟨_, h, _⟩ => by cases h

@[simp] theorem not_between_nan {low high : ℝ} : ¬ Between low high nan :=
  fun ⟨_, h, _⟩ => by cases h

theorem inUnit_iff_between {x : Extended ℝ} : Scalar.inUnit x = true ↔ x.Between 0 1 :=
  inUnit_iff

/-! ## What a conversion finds out -/

theorem between_div {x : Extended ℝ} : (x / number 255).Between 0 1 ↔ x.Between 0 255 := by
  cases x with
  | number a =>
      have hdiv : number a / number 255 = number (a / 255) := by
        show Extended.div _ _ = _
        simp [Extended.div]
      rw [hdiv, between_number, between_number, div_le_one (by norm_num), le_div_iff₀ (by norm_num),
        zero_mul]
  | infinity s => exact iff_of_false (not_between_infinity _) (not_between_infinity _)
  | nan => exact iff_of_false not_between_nan not_between_nan

theorem between_one_sub {x : Extended ℝ} : (number 1 - x).Between 0 1 ↔ x.Between 0 1 := by
  cases x with
  | number a =>
      rw [number_sub, between_number, between_number, sub_nonneg, sub_le_self_iff]
      exact and_comm
  | infinity s => exact iff_of_false (not_between_infinity _) (not_between_infinity _)
  | nan => exact iff_of_false not_between_nan not_between_nan

/-- What exceeds one is cut off, infinity and no number with it. -/
theorem between_min_one {x : Extended ℝ} :
    (Scalar.min x (number 1)).Between 0 1 ↔ Scalar.lt x (number 0) = false := by
  cases x with
  | number a =>
      have hmin : Scalar.min (number a) (number 1) = if 1 < a then number 1 else number a := by
        simp [Scalar.min, Scalar.isNaN]
      rw [hmin, lt_number, decide_eq_false_iff_not, not_lt]
      split
      · next h => simp [h.le.trans' zero_le_one]
      · next h => simp [not_lt.mp h]
  | infinity s => cases s <;> simp [Scalar.min, Scalar.isNaN, Scalar.lt, lt]
  | nan => simp [Scalar.min, Scalar.isNaN, Scalar.lt, lt]

/-- Two amounts that are not negative have a sum that is not. -/
theorem lt_add_eq_false {x y : Extended ℝ} (hx : x.Between 0 1) (hy : y.Between 0 1) :
    Scalar.lt (x + y) (number 0) = false := by
  obtain ⟨a, rfl, ha, -⟩ := hx
  obtain ⟨b, rfl, hb, -⟩ := hy
  rw [number_add, lt_number, decide_eq_false_iff_not, not_lt]
  exact add_nonneg ha hb

/-- The position of a hue within its turn is a number if the hue is one, and only then. -/
theorem fract_number (a : ℝ) : Scalar.fract (number a) = number (Int.fract a) :=
  number_sub a ⌊a⌋

theorem fract_infinity (s : Bool) : Scalar.fract (infinity s : Extended ℝ) = nan := by
  cases s <;> rfl

theorem fract_nan : Scalar.fract (nan : Extended ℝ) = nan := rfl

end PictureTree.Extended

namespace PictureTree.Color

/-! ## The sectors of a hue -/

section Hue

open scoped PictureTree.Scalar

/-- The sector of a hue only says which component is which: one is the brightness, one is what
the saturation leaves of it, and one is what a part of the saturation leaves. -/
theorem exists_third {α : Type} [Scalar α] (h s v : α) :
    ∃ f : α, (f = Scalar.fract (Scalar.fract h * 6) ∨ f = 1 - Scalar.fract (Scalar.fract h * 6)) ∧
      ∀ P : α → Prop,
        (P (hsbComponents h s v).1 ∧ P (hsbComponents h s v).2.1 ∧ P (hsbComponents h s v).2.2) ↔
          P v ∧ P (v * (1 - s)) ∧ P (v * (1 - s * f)) := by
  unfold hsbComponents
  dsimp only
  split_ifs
  · exact ⟨_, .inr rfl, fun P => and_congr_right' and_comm⟩
  · exact ⟨_, .inl rfl, fun P => and_rotate⟩
  · exact ⟨_, .inr rfl, fun P => and_left_comm⟩
  · exact ⟨_, .inl rfl, fun P => and_rotate.symm⟩
  · exact ⟨_, .inr rfl, fun P => and_rotate.symm.trans (and_congr_right' and_comm)⟩
  · exact ⟨_, .inl rfl, fun P => Iff.rfl⟩

end Hue

open Extended

/-! ## What the values should be -/

/-- As many values as the model has, each in its range. -/
def Model.InRange : Model → List (Extended ℝ) → Prop
  | .rgb, [r, g, b] => r.Between 0 1 ∧ g.Between 0 1 ∧ b.Between 0 1
  | .rgb255, [r, g, b] => r.Between 0 255 ∧ g.Between 0 255 ∧ b.Between 0 255
  | .gray, [v] => v.Between 0 1
  | .cmyk, [c, m, y, k] => c.Between 0 1 ∧ m.Between 0 1 ∧ y.Between 0 1 ∧ k.Between 0 1
  | .cmy, [c, m, y] => c.Between 0 1 ∧ m.Between 0 1 ∧ y.Between 0 1
  | .hsb, [h, s, v] => Scalar.isFinite h = true ∧ s.Between 0 1 ∧ v.Between 0 1
  | _, _ => False

/-- A saturation whose error the brightness hides: there is no brightness, or the saturation is
negative and what it adds to the brightness stays within the unit interval. -/
def HiddenSaturation (s v : Extended ℝ) : Prop :=
  ∃ a b, s = number a ∧ v = number b ∧ 0 ≤ b ∧ b ≤ 1 ∧ ¬ (0 ≤ a ∧ a ≤ 1) ∧
    (b = 0 ∨ a < 0 ∧ b * (1 - a) ≤ 1)

/-- Values out of range that a model takes all the same. -/
def Model.Hides : Model → List (Extended ℝ) → Prop
  | .cmyk, [c, m, y, k] =>
      ¬ Model.cmyk.InRange [c, m, y, k] ∧
        ∀ ink ∈ [c, m, y], Scalar.lt (ink + k) (number 0) = false
  | .hsb, [h, s, v] => Scalar.isFinite h = true ∧ HiddenSaturation s v
  | _, _ => False

/-! ## The components of a model -/

/-- Red, green and blue lie in the unit interval. -/
def UnitComponents (c : Extended ℝ × Extended ℝ × Extended ℝ) : Prop :=
  c.1.Between 0 1 ∧ c.2.1.Between 0 1 ∧ c.2.2.Between 0 1

theorem unitComponents_cmyk_iff {c m y k : Extended ℝ} :
    UnitComponents (underInk c k, underInk m k, underInk y k) ↔
      Model.cmyk.InRange [c, m, y, k] ∨ Model.cmyk.Hides [c, m, y, k] := by
  have hink (ink : Extended ℝ) :
      (underInk ink k).Between 0 1 ↔ Scalar.lt (ink + k) (number 0) = false := by
    rw [underInk, literal_eq, Nat.cast_one, between_one_sub, between_min_one]
  have htaken : UnitComponents (underInk c k, underInk m k, underInk y k) ↔
      ∀ ink ∈ [c, m, y], Scalar.lt (ink + k) (number 0) = false := by
    simp [UnitComponents, hink]
  rw [htaken]
  by_cases hrange : Model.cmyk.InRange [c, m, y, k]
  · refine iff_of_true ?_ (.inl hrange)
    obtain ⟨hc, hm, hy, hk⟩ := hrange
    simp [lt_add_eq_false, hc, hm, hy, hk]
  · simp [Model.Hides, hrange]

/-- What is left of a brightness under a saturation is a number only if both are. -/
theorem exists_numbers_of_between {s v : Extended ℝ} (hv : v.Between 0 1)
    (hp : (v * (number 1 - s)).Between 0 1) : ∃ a b, s = number a ∧ v = number b := by
  obtain ⟨b, rfl, -⟩ := hv
  obtain ⟨c, hc, -⟩ := hp
  cases s with
  | number a => exact ⟨a, b, rfl, rfl⟩
  | infinity negative =>
      have hmul (t : Bool) : number b * infinity t ≠ number c := by
        intro h
        change Extended.mul _ _ = _ at h
        simp only [Extended.mul] at h
        split at h <;> cases h
      exact (hmul _ hc).elim
  | nan => cases hc

/-- Brightness and what a saturation leaves of it are in range together if, and only if, the
saturation is in range too or hidden. -/
theorem between_brightness_iff {s v : Extended ℝ} :
    v.Between 0 1 ∧ (v * (number 1 - s)).Between 0 1 ↔
      s.Between 0 1 ∧ v.Between 0 1 ∨ HiddenSaturation s v := by
  constructor
  · intro ⟨hv, hp⟩
    obtain ⟨a, b, rfl, rfl⟩ := exists_numbers_of_between hv hp
    rw [number_sub, number_mul, between_number] at hp
    rw [between_number] at hv ⊢
    by_cases ha : 0 ≤ a ∧ a ≤ 1
    · exact .inl ⟨ha, by simpa using hv⟩
    · refine .inr ⟨a, b, rfl, rfl, hv.1, hv.2, ha, ?_⟩
      rcases hv.1.eq_or_lt with hb | hb
      · exact .inl hb.symm
      · have hle : 0 ≤ 1 - a := nonneg_of_mul_nonneg_right hp.1 hb
        exact .inr ⟨not_le.mp fun h => ha ⟨h, sub_nonneg.mp hle⟩, hp.2⟩
  · rintro (⟨⟨a, rfl, ha⟩, b, rfl, hb⟩ | ⟨a, b, rfl, rfl, hb₀, hb₁, -, h⟩)
    · rw [number_sub, number_mul, between_number, between_number]
      have hrest : 0 ≤ 1 - a := sub_nonneg.mpr ha.2
      exact ⟨hb, mul_nonneg hb.1 hrest, mul_le_one₀ hb.2 hrest (sub_le_self 1 ha.1)⟩
    · rw [number_sub, number_mul, between_number, between_number]
      refine ⟨⟨hb₀, hb₁⟩, ?_⟩
      rcases h with rfl | ⟨ha, hle⟩
      · simp
      · exact ⟨mul_nonneg hb₀ (by linarith), hle⟩

/-- The third component is a mean of the brightness and of what is left of it. -/
theorem between_third {s v : Extended ℝ} {w : ℝ} (hw : 0 ≤ w ∧ w ≤ 1) (hv : v.Between 0 1)
    (hp : (v * (number 1 - s)).Between 0 1) : (v * (number 1 - s * number w)).Between 0 1 := by
  obtain ⟨a, b, rfl, rfl⟩ := exists_numbers_of_between hv hp
  rw [number_sub, number_mul, between_number] at hp
  rw [number_mul, number_sub, number_mul, between_number]
  rw [between_number] at hv
  have hmean : b * (1 - a * w) = b * (1 - a) * w + b * (1 - w) := by ring
  rw [hmean]
  exact mean_mem_unit hp hv hw

theorem mul_nan (x : Extended ℝ) : x * (nan : Extended ℝ) = nan := by
  cases x <;> rfl

theorem sub_nan (x : Extended ℝ) : x - (nan : Extended ℝ) = nan := by
  cases x <;> rfl

theorem unitComponents_hsb_iff {h s v : Extended ℝ} :
    UnitComponents (hsbComponents h s v) ↔
      Model.hsb.InRange [h, s, v] ∨ Model.hsb.Hides [h, s, v] := by
  have hsplit : Model.hsb.InRange [h, s, v] ∨ Model.hsb.Hides [h, s, v] ↔
      Scalar.isFinite h = true ∧ (s.Between 0 1 ∧ v.Between 0 1 ∨ HiddenSaturation s v) :=
    and_or_left.symm
  obtain ⟨f, hf, hcomponents⟩ := exists_third h s v
  rw [UnitComponents, hcomponents, hsplit, ← between_brightness_iff, literal_eq, Nat.cast_one]
  simp only [literal_eq, Nat.cast_one, Nat.cast_ofNat] at hf
  -- a hue that is no number makes the third component none
  have hlost (hnan : Scalar.fract h = nan) : ¬ (v * (number 1 - s * f)).Between 0 1 := by
    have hturn : Scalar.fract (nan * number 6 : Extended ℝ) = nan := rfl
    have hf : f = nan := by
      rw [hnan, hturn, sub_nan, or_self] at hf
      exact hf
    rw [hf, mul_nan, sub_nan, mul_nan]
    exact not_between_nan
  cases h with
  | number a =>
      rw [fract_number, number_mul, fract_number, number_sub] at hf
      have hunit : 0 ≤ Int.fract (Int.fract a * 6) ∧ Int.fract (Int.fract a * 6) ≤ 1 :=
        ⟨Int.fract_nonneg _, (Int.fract_lt_one _).le⟩
      have hpart : ∃ w, f = number w ∧ 0 ≤ w ∧ w ≤ 1 := by
        rcases hf with hf | hf
        · exact ⟨_, hf, hunit⟩
        · exact ⟨_, hf, sub_nonneg.mpr hunit.2, sub_le_self 1 hunit.1⟩
      obtain ⟨w, rfl, hw⟩ := hpart
      have hthird : v.Between 0 1 ∧ (v * (number 1 - s)).Between 0 1 →
          (v * (number 1 - s * number w)).Between 0 1 := fun hboth =>
        between_third hw hboth.1 hboth.2
      have hfinite : Scalar.isFinite (number a) = true := rfl
      simp only [hfinite, true_and, ← and_assoc]
      exact and_iff_left_of_imp hthird
  | infinity negative =>
      exact iff_of_false (fun h => hlost (fract_infinity negative) h.2.2) (fun h => by cases h.1)
  | nan => exact iff_of_false (fun h => hlost fract_nan h.2.2) (fun h => by cases h.1)

/-- The components that a model makes of its values lie in the unit interval if the values are
in range, and else only if the model hides it. -/
theorem Model.components?_inUnit_iff (m : Model) (xs : List (Extended ℝ)) :
    (∃ c, m.components? xs = some c ∧ UnitComponents c) ↔ m.InRange xs ∨ m.Hides xs := by
  have hsome {c : Extended ℝ × Extended ℝ × Extended ℝ} :
      (∃ d, some c = some d ∧ UnitComponents d) ↔ UnitComponents c := by
    simp
  fun_cases Model.components? m xs with
  | case1 r g b => simp [UnitComponents, InRange, Hides]
  | case2 r g b =>
      have h255 : (255 : ℕ) = (255 : ℝ) := rfl
      rw [hsome, UnitComponents, literal_eq, h255]
      simp [between_div, InRange, Hides]
  | case3 v => simp [UnitComponents, InRange, Hides]
  | case4 c m y k => rw [hsome, unitComponents_cmyk_iff]
  | case5 c m y =>
      rw [hsome, UnitComponents, literal_eq, Nat.cast_one]
      simp [between_one_sub, InRange, Hides]
  | case6 h s b => rw [hsome, unitComponents_hsb_iff]
  | case7 m xs h1 h2 h3 h4 h5 h6 =>
      refine iff_of_false (by simp) ?_
      rintro (h | h)
      · unfold InRange at h
        grind
      · unfold Hides at h
        grind

/-! ## Conversions -/

section Conversions

variable {α : Type} [Scalar α]

theorem eq_of_component? {name : String} {x y : α} (h : component? name x = .ok y) : y = x := by
  unfold component? at h
  split at h
  · exact (Except.ok.inj h).symm
  · cases h

/-- What is admitted as a colour are the components as they are, if they are in range. -/
theorem ofComponents?_eq_ok_iff {r g b o : α} {c : Color α} :
    ofComponents? r g b o = .ok c ↔ c = ⟨r, g, b, o⟩ ∧ c.InGamut := by
  constructor
  · intro hok
    have hgamut := inGamut_of_ofComponents? hok
    obtain ⟨r', hr, hok⟩ := exists_ok_of_bind hok
    obtain ⟨g', hg, hok⟩ := exists_ok_of_bind hok
    obtain ⟨b', hb, hok⟩ := exists_ok_of_bind hok
    obtain ⟨o', ho, hok⟩ := exists_ok_of_bind hok
    rw [← eq_of_component? hr, ← eq_of_component? hg, ← eq_of_component? hb,
      ← eq_of_component? ho]
    exact ⟨(Except.ok.inj hok).symm, hgamut⟩
  · rintro ⟨rfl, hgamut⟩
    exact ofComponents?_eq hgamut.r hgamut.g hgamut.b hgamut.o

/-- The values of a model are converted, or they are an error. -/
theorem ofModel?_name (m : Model) (values : String) :
    (ofModel? m.name values : Except ResolveError (Color α)) =
      match ofNumbers? m values with
      | some c => .ok c
      | none => .error (.invalidColorValues m.name values) := by
  cases m <;> rfl

theorem ofModel?_name_eq_ok_iff {m : Model} {values : String} {c : Color α} :
    ofModel? m.name values = .ok c ↔ ofNumbers? m values = some c := by
  rw [ofModel?_name]
  split
  · next d hd => simp [hd]
  · next hnone => simp [hnone]

theorem eq_of_ofModel?_name_error {m : Model} {values : String} {e : ResolveError}
    (h : (ofModel? m.name values : Except ResolveError (Color α)) = .error e) :
    e = .invalidColorValues m.name values := by
  rw [ofModel?_name] at h
  split at h
  · cases h
  · exact (Except.error.inj h).symm

/-- A conversion looks at the components, and only at these. -/
theorem exists_ofModel?_iff {m : Model} {values : String}
    (hone : Scalar.inUnit (@OfNat.ofNat α 1 (Scalar.instOfNat 1)) = true) :
    (∃ c : Color α, ofModel? m.name values = .ok c) ↔
      ∃ ns, numbers? values.toList = some ns ∧
        ∃ c : α × α × α, m.components? (ns.map Scalar.ofNumeral) = some c ∧
          Scalar.inUnit c.1 = true ∧ Scalar.inUnit c.2.1 = true ∧ Scalar.inUnit c.2.2 = true := by
  simp only [ofModel?_name_eq_ok_iff, ofNumbers?, bind, Option.bind_eq_some_iff]
  constructor
  · rintro ⟨c, ns, hns, components, hcomponents, h⟩
    obtain ⟨rfl, hgamut⟩ := ofComponents?_eq_ok_iff.mp (ok_of_toOption h)
    exact ⟨ns, hns, components, hcomponents, hgamut.r, hgamut.g, hgamut.b⟩
  · rintro ⟨ns, hns, components, hcomponents, hr, hg, hb⟩
    have hok := ofComponents?_eq hr hg hb hone
    exact ⟨_, ns, hns, components, hcomponents, congrArg Except.toOption hok⟩

end Conversions

/-- A conversion succeeds if, and only if, the values are numbers, as many as the model has and
each in its range, or ones that the model hides. -/
theorem exists_ofModel?_extended_iff (m : Model) (values : String) :
    (∃ c : Color (Extended ℝ), ofModel? m.name values = .ok c) ↔
      ∃ ns, numbers? values.toList = some ns ∧
        (m.InRange (ns.map Scalar.ofNumeral) ∨ m.Hides (ns.map Scalar.ofNumeral)) := by
  rw [exists_ofModel?_iff (@inUnit_one ℝ _)]
  simp only [inUnit_iff_between, ← Model.components?_inUnit_iff]
  rfl

end PictureTree.Color
