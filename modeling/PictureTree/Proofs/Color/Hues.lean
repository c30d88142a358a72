/-
# `Proofs.Color.Hues` — the colour of a hue

A hue is converted sector by sector.  In each of the six sectors one component is the brightness,
one is what the saturation leaves of it, and one passes from one of these to the other; which is
which depends on the sector.

The three components are the same function of the hue, two sectors apart (`hueComponent`).  It
takes a share of the saturation off the brightness, and that share depends on the place on the
hue circle alone, which is six sectors long (`weight`):

    0 to 1    the share rises from nothing to all
    1 to 3    all
    3 to 4    it falls to nothing
    4 to 6    nothing

Inside a sector the share is one of four functions of the part that has been passed
(`weightIn`), so the two descriptions are compared for six sectors and not for every hue.

All of this is exact arithmetic whose floors are whole numbers.  In it no hue lies beyond the
sixth sector, so the last case of the conversion is that of the sixth one.
-/
import Mathlib.Tactic.IntervalCases
import PictureTree.Proofs.Color.Ranges

namespace PictureTree.Color

variable {α : Type} [ExactScalar α]

/-! ## Shares of the saturation -/

/-- The share of the saturation that counts at a place of the hue circle. -/
def weight (k : α) : α := max 0 (min (min k (4 - k)) 1)

/-- The share that counts behind a part `f` of a sector; sectors are counted modulo six. -/
def weightIn (sector : ℕ) (f : α) : α :=
  match sector % 6 with
  | 0 => f
  | 1 | 2 => 1
  | 3 => 1 - f
  | _ => 0

section Weight

variable {k f : α}

theorem weight_rising (hlow : 0 ≤ k) (hhigh : k ≤ 1) : weight k = k := by
  have hmin : min k (4 - k) = k := min_eq_left (by linarith)
  rw [weight, hmin, min_eq_left hhigh, max_eq_right hlow]

theorem weight_full (hlow : 1 ≤ k) (hhigh : k ≤ 3) : weight k = 1 := by
  have hmin : 1 ≤ min k (4 - k) := le_min hlow (by linarith)
  rw [weight, min_eq_right hmin, max_eq_right zero_le_one]

theorem weight_falling (hlow : 3 ≤ k) (hhigh : k ≤ 4) : weight k = 4 - k := by
  have hmin : min k (4 - k) = 4 - k := min_eq_right (by linarith)
  rw [weight, hmin, min_eq_left (by linarith), max_eq_right (by linarith)]

theorem weight_none (h : 4 ≤ k) : weight k = 0 := by
  have hmin : min k (4 - k) ≤ 0 := (min_le_right _ _).trans (by linarith)
  exact max_eq_left ((min_le_left _ _).trans hmin)

theorem weight_add (hlow : 0 ≤ f) (hhigh : f ≤ 1) {n : ℕ} (hn : n < 6) :
    weight (n + f) = weightIn n f := by
  interval_cases n <;> push_cast
  · rw [zero_add]
    exact weight_rising hlow hhigh
  · exact weight_full (by linarith) (by linarith)
  · exact weight_full (by linarith) (by linarith)
  · rw [weight_falling (by linarith) (by linarith)]
    show _ = 1 - f
    ring
  · exact weight_none (by linarith)
  · exact weight_none (by linarith)

end Weight

/-! ## The hue circle -/

section Circle

variable [FloorRing α]

/-- A number modulo six. -/
def modSix (x : α) : α := x - 6 * ⌊x / 6⌋

/-- The component that is `n` sectors ahead of a hue. -/
def hueComponent (n h s v : α) : α := v - v * s * weight (modSix (n + 6 * h))

/-- The sector that a hue lies in. -/
def sector (h : α) : ℕ := ⌊Int.fract h * 6⌋₊

/-- The part of its sector that a hue has passed. -/
def passed (h : α) : α := Int.fract h * 6 - sector h

theorem modSix_eq {x y : α} (m : ℤ) (h : x = y + 6 * m) (hlow : 0 ≤ y) (hhigh : y < 6) :
    modSix x = y := by
  have hfloor : ⌊x / 6⌋ = m := by
    rw [Int.floor_eq_iff]
    constructor <;> linarith
  rw [modSix, hfloor, h]
  ring

theorem sector_lt (h : α) : sector h < 6 := by
  have hlt : Int.fract h * 6 < 6 := by linarith [Int.fract_lt_one h]
  exact (Nat.floor_lt' (by decide)).mpr (by exact_mod_cast hlt)

theorem passed_mem (h : α) : 0 ≤ passed h ∧ passed h < 1 := by
  have hnonneg : 0 ≤ Int.fract h * 6 := mul_nonneg (Int.fract_nonneg h) (by norm_num)
  have hle := Nat.floor_le hnonneg
  have hlt := Nat.lt_floor_add_one (Int.fract h * 6)
  exact ⟨sub_nonneg.mpr hle, by rw [passed, sector]; linarith⟩

/-- A place on the hue circle is a sector and a part of it. -/
theorem modSix_add (n : ℕ) (h : α) :
    modSix (n + 6 * h) = ((n + sector h) % 6 : ℕ) + passed h := by
  obtain ⟨hlow, hhigh⟩ := passed_mem h
  have hmod : (n + sector h) % 6 ≤ 5 := by omega
  have hle : (((n + sector h) % 6 : ℕ) : α) ≤ 5 := by exact_mod_cast hmod
  have hsplit : (n : α) + sector h = ((n + sector h) % 6 : ℕ) + 6 * ((n + sector h) / 6 : ℕ) := by
    exact_mod_cast (Nat.mod_add_div (n + sector h) 6).symm
  have hfract : Int.fract h = h - ⌊h⌋ := rfl
  refine modSix_eq (⌊h⌋ + ((n + sector h) / 6 : ℕ)) ?_ (by positivity) (by linarith)
  rw [passed, hfract, Int.cast_add, Int.cast_natCast]
  linear_combination hsplit

theorem hueComponent_eq (n : ℕ) (h s v : α) :
    hueComponent (n : α) h s v = v * (1 - s * weightIn (n + sector h) (passed h)) := by
  obtain ⟨hlow, hhigh⟩ := passed_mem h
  have hlt : (n + sector h) % 6 < 6 := Nat.mod_lt _ (by decide)
  rw [hueComponent, modSix_add, weight_add hlow hhigh.le hlt, weightIn, weightIn, Nat.mod_mod]
  ring

end Circle

/-! ## Components -/

section Components

variable [FloorRing α] (hfloor : ∀ x : α, Scalar.floor x = ⌊x⌋)

include hfloor

theorem fract_eq (x : α) : Scalar.fract x = Int.fract x := by
  rw [Scalar.fract, hfloor]
  rfl

theorem floor_turn (h : α) : Scalar.floor (Scalar.fract h * 6) = (sector h : α) := by
  have hnonneg : 0 ≤ Int.fract h * 6 := mul_nonneg (Int.fract_nonneg h) (by norm_num)
  rw [hfloor, fract_eq hfloor, sector, natCast_floor_eq_intCast_floor hnonneg]

/-- A hue in none of the first five sectors is in the sixth. -/
theorem floor_turn_eq_five {h : α}
    (hnone : ∀ n < 5, Scalar.eq (Scalar.floor (Scalar.fract h * 6)) (n : ℕ) = false) :
    Scalar.floor (Scalar.fract h * 6) = (5 : α) := by
  have hlt := sector_lt h
  have hne : ¬ sector h < 5 := fun hbelow => by
    have hself := hnone (sector h) hbelow
    rw [floor_turn hfloor] at hself
    exact absurd hself (by simp [Scalar.eq])
  rw [floor_turn hfloor, show sector h = 5 by omega, Nat.cast_ofNat]

/-- What the sectors say about the components is what the hue circle says. -/
theorem hsbComponents_eq (h s v : α) :
    hsbComponents h s v = (hueComponent 5 h s v, hueComponent 3 h s v, hueComponent 1 h s v) := by
  have hfive := hueComponent_eq 5 h s v
  have hthree := hueComponent_eq 3 h s v
  have hone := hueComponent_eq 1 h s v
  push_cast at hfive hthree hone
  have hpassed : Scalar.fract h * 6 - sector h = passed h := by rw [fract_eq hfloor, passed]
  have hlt := sector_lt h
  rw [hfive, hthree, hone]
  simp only [hsbComponents, ExactScalar.literal_eq, Nat.cast_ofNat, floor_turn hfloor, hpassed]
  -- What is left are the six sectors; `s * 0` and `s * 1` are all that differs in them.
  generalize sector h = n at hlt
  interval_cases n <;> simp [weightIn, Scalar.eq]

/-- A full turn changes nothing. -/
theorem hsbComponents_add_one (h s v : α) : hsbComponents (h + 1) s v = hsbComponents h s v := by
  unfold hsbComponents
  rw [fract_eq hfloor, fract_eq hfloor, Int.fract_add_one]

/-- The largest component is the brightness, and the smallest what the saturation leaves of it. -/
theorem max_min_hsbComponents {s v : α} (hs : 0 ≤ s) (hv : 0 ≤ v) (h : α) :
    let c := hsbComponents h s v
    max c.1 (max c.2.1 c.2.2) = v ∧ min c.1 (min c.2.1 c.2.2) = v * (1 - s) := by
  intro c
  obtain ⟨f, hf, hall⟩ := exists_third h s v
  simp only [ExactScalar.literal_eq, Nat.cast_ofNat, Nat.cast_one, fract_eq hfloor] at hf hall
  have hunit : 0 ≤ f ∧ f ≤ 1 := by
    have hlow := Int.fract_nonneg (Int.fract h * 6)
    have hhigh := Int.fract_lt_one (Int.fract h * 6)
    rcases hf with rfl | rfl <;> constructor <;> linarith
  have hthird : v * (1 - s) ≤ v * (1 - s * f) ∧ v * (1 - s * f) ≤ v := by
    have hshare : s * f ≤ s := mul_le_of_le_one_right hs hunit.2
    have hnonneg : 0 ≤ s * f := mul_nonneg hs hunit.1
    exact ⟨mul_le_mul_of_nonneg_left (by linarith) hv, mul_le_of_le_one_right hv (by linarith)⟩
  -- A bound that all three values obey is not strict, since `v` and `v * (1 - s)` are among them.
  constructor
  · obtain ⟨h1, h2, h3⟩ := (hall (· ≤ v)).mpr ⟨le_rfl, hthird.1.trans hthird.2, hthird.2⟩
    refine le_antisymm (max_le h1 (max_le h2 h3)) (not_lt.mp fun hlt => ?_)
    rw [max_lt_iff, max_lt_iff] at hlt
    exact lt_irrefl v ((hall (· < v)).mp hlt).1
  · obtain ⟨h1, h2, h3⟩ := (hall (v * (1 - s) ≤ ·)).mpr
      ⟨hthird.1.trans hthird.2, le_rfl, hthird.1⟩
    refine le_antisymm (not_lt.mp fun hlt => ?_) (le_min h1 (le_min h2 h3))
    rw [lt_min_iff, lt_min_iff] at hlt
    exact lt_irrefl _ ((hall (v * (1 - s) < ·)).mp hlt).2.1

theorem hsbComponents_mem_unit {s v : α} (hs : 0 ≤ s ∧ s ≤ 1) (hv : 0 ≤ v ∧ v ≤ 1) (h : α) :
    let c := hsbComponents h s v
    (0 ≤ c.1 ∧ c.1 ≤ 1) ∧ (0 ≤ c.2.1 ∧ c.2.1 ≤ 1) ∧ (0 ≤ c.2.2 ∧ c.2.2 ≤ 1) := by
  intro c
  obtain ⟨hmax, hmin⟩ := max_min_hsbComponents hfloor hs.1 hv.1 h
  have hlow : 0 ≤ min c.1 (min c.2.1 c.2.2) := by
    rw [hmin]
    exact mul_nonneg hv.1 (sub_nonneg.mpr hs.2)
  have hhigh : max c.1 (max c.2.1 c.2.2) ≤ 1 := hmax.trans_le hv.2
  rw [le_min_iff, le_min_iff] at hlow
  rw [max_le_iff, max_le_iff] at hhigh
  exact ⟨⟨hlow.1, hhigh.1⟩, ⟨hlow.2.1, hhigh.2.1⟩, hlow.2.2, hhigh.2.2⟩

end Components

/-- Without saturation there is no hue. -/
theorem hsbComponents_zero (h v : α) : hsbComponents h 0 v = (v, v, v) := by
  unfold hsbComponents
  simp only [ExactScalar.literal_eq, zero_mul, Nat.cast_one, sub_zero, mul_one, ite_self]

/-! ## Conversions -/

/-- The values that a text lists. -/
def values? {β : Type} [Scalar β] (values : String) : Option (List β) :=
  (numbers? values.toList).map (List.map Scalar.ofNumeral)

open Extended

/-- Numbers are converted as if there were nothing else. -/
theorem hsbComponents_number (h s v : α) :
    hsbComponents (number h) (number s) (number v) =
      (number (hsbComponents h s v).1, number (hsbComponents h s v).2.1,
        number (hsbComponents h s v).2.2) := by
  have hfract (x : α) : Scalar.fract (number x) = number (Scalar.fract x) := number_sub ..
  have hfloor (x : α) : Scalar.floor (number x) = number (Scalar.floor x) := rfl
  have heq (x y : α) : Scalar.eq (number x) (number y) = Scalar.eq x y := rfl
  simp only [hsbComponents, Extended.literal_eq, ExactScalar.literal_eq, hfract, hfloor, number_mul,
    number_sub, heq]
  split_ifs <;> rfl

/-- Values with components in range describe a colour. -/
theorem ofModel?_of_components {m : Model} {values : String} {xs : List (Extended α)} {r g b : α}
    (hvalues : values? values = some xs)
    (hcomponents : m.components? xs = some (number r, number g, number b))
    (hr : 0 ≤ r ∧ r ≤ 1) (hg : 0 ≤ g ∧ g ≤ 1) (hb : 0 ≤ b ∧ b ≤ 1) :
    ofModel? m.name values = .ok (rgb (number r) (number g) (number b)) := by
  obtain ⟨ns, hns, rfl⟩ := Option.map_eq_some_iff.mp hvalues
  have hok := ofComponents?_eq (inUnit_number.mpr hr) (inUnit_number.mpr hg)
    (inUnit_number.mpr hb) inUnit_one
  rw [ofModel?_name_eq_ok_iff, ofNumbers?, hns]
  show (m.components? _ >>= _) = _
  rw [hcomponents]
  exact congrArg Except.toOption hok

variable [FloorRing α]

/-- The components of a hue are those of the hue circle; the last case is that of the sixth
sector; a full turn changes nothing; the largest component is the brightness and the smallest
what the saturation leaves of it; without saturation the colour is gray; and every saturation and
brightness in range is converted. -/
theorem hsb_on_circle (hfloor : ∀ x : α, Scalar.floor x = ⌊x⌋) {s v : α} (hs : 0 ≤ s ∧ s ≤ 1)
    (hv : 0 ≤ v ∧ v ≤ 1) (h : α) :
    hsbComponents h s v = (hueComponent 5 h s v, hueComponent 3 h s v, hueComponent 1 h s v) ∧
    ((∀ n < 5, Scalar.eq (Scalar.floor (Scalar.fract h * 6)) (n : ℕ) = false) →
      Scalar.floor (Scalar.fract h * 6) = (5 : α)) ∧
    hsbComponents (h + 1) s v = hsbComponents h s v ∧
    max (hueComponent 5 h s v) (max (hueComponent 3 h s v) (hueComponent 1 h s v)) = v ∧
    min (hueComponent 5 h s v) (min (hueComponent 3 h s v) (hueComponent 1 h s v)) = v * (1 - s) ∧
    hsbComponents h 0 v = (v, v, v) ∧
    (∀ values level : String, values? values = some [number h, number 0, number v] →
      values? level = some [number v] →
        ofModel? "hsb" values = .ok (gray (number v)) ∧
        ofModel? "gray" level = .ok (gray (number v))) ∧
    ∀ values : String, values? values = some [number h, number s, number v] →
      ofModel? "hsb" values = .ok (rgb (number (hueComponent 5 h s v))
        (number (hueComponent 3 h s v)) (number (hueComponent 1 h s v))) := by
  have hcircle := hsbComponents_eq hfloor h s v
  have hends := max_min_hsbComponents hfloor hs.1 hv.1 h
  have hunit := hsbComponents_mem_unit hfloor hs hv h
  have hnumbers := hsbComponents_number h s v
  have hgray := hsbComponents_number h 0 v
  rw [hsbComponents_zero] at hgray
  rw [hcircle] at hends hunit hnumbers
  refine ⟨hcircle, floor_turn_eq_five hfloor, hsbComponents_add_one hfloor h s v, hends.1, hends.2,
    hsbComponents_zero h v, fun values level hvalues hlevel => ⟨?_, ?_⟩, fun values hvalues => ?_⟩
  · exact ofModel?_of_components (m := .hsb) hvalues (congrArg some hgray) hv hv hv
  · exact ofModel?_of_components (m := .gray) hlevel rfl hv hv hv
  · exact ofModel?_of_components (m := .hsb) hvalues (congrArg some hnumbers) hunit.1 hunit.2.1
      hunit.2.2

/-- Three quarters of a turn back is in the middle of the second sector: red has half of the
saturation taken off, green none, and blue all. -/
theorem hsb_on_circle_second_sector :
    (∀ x : ℝ, Scalar.floor x = ⌊x⌋) ∧ (0 ≤ (1 / 2 : ℝ) ∧ (1 / 2 : ℝ) ≤ 1) ∧
    (0 ≤ (4 / 5 : ℝ) ∧ (4 / 5 : ℝ) ≤ 1) ∧
    hsbComponents (-3 / 4 : ℝ) (1 / 2) (4 / 5) = (3 / 5, 4 / 5, 2 / 5) ∧
    values? "-0.75 0.5,0.8" = some [number (-3 / 4 : ℝ), number (1 / 2), number (4 / 5)] ∧
    ofModel? "hsb" "-0.75 0.5,0.8"
      = .ok (rgb (number (3 / 5 : ℝ)) (number (4 / 5)) (number (2 / 5))) := by
  have hfloor (x : ℝ) : Scalar.floor x = ⌊x⌋ := rfl
  have hs : 0 ≤ (1 / 2 : ℝ) ∧ (1 / 2 : ℝ) ≤ 1 := by norm_num
  have hv : 0 ≤ (4 / 5 : ℝ) ∧ (4 / 5 : ℝ) ≤ 1 := by norm_num
  have hred : hueComponent 5 (-3 / 4 : ℝ) (1 / 2) (4 / 5) = 3 / 5 := by
    rw [hueComponent, modSix_eq (y := 1 / 2) 0 (by norm_num) (by norm_num) (by norm_num),
      weight_rising (by norm_num) (by norm_num)]
    norm_num
  have hgreen : hueComponent 3 (-3 / 4 : ℝ) (1 / 2) (4 / 5) = 4 / 5 := by
    rw [hueComponent, modSix_eq (y := 9 / 2) (-1) (by norm_num) (by norm_num) (by norm_num),
      weight_none (by norm_num)]
    norm_num
  have hblue : hueComponent 1 (-3 / 4 : ℝ) (1 / 2) (4 / 5) = 2 / 5 := by
    rw [hueComponent, modSix_eq (y := 5 / 2) (-1) (by norm_num) (by norm_num) (by norm_num),
      weight_full (by norm_num) (by norm_num)]
    norm_num
  have hnumbers : numbers? "-0.75 0.5,0.8".toList
      = some [.decimal true 75 (-2), .decimal false 5 (-1), .decimal false 8 (-1)] := by
    decide
  have hvalues : values? "-0.75 0.5,0.8"
      = some [number (-3 / 4 : ℝ), number (1 / 2), number (4 / 5)] := by
    have hdecimal (negative : Bool) (digits : ℕ) (exponent : ℤ) :
        (Scalar.ofNumeral (.decimal negative digits exponent) : Extended ℝ)
          = number (ExactScalar.ofNumeral (.decimal negative digits exponent)) := rfl
    rw [values?, hnumbers]
    simp only [Option.map_some, List.map_cons, List.map_nil, hdecimal,
      ExactScalar.ofNumeral_decimal]
    norm_num
  obtain ⟨hcircle, -, -, -, -, -, -, hconvert⟩ := hsb_on_circle hfloor hs hv (-3 / 4)
  rw [hred, hgreen, hblue] at hcircle hconvert
  exact ⟨hfloor, hs, hv, hcircle, hvalues, hconvert _ hvalues⟩

end PictureTree.Color
