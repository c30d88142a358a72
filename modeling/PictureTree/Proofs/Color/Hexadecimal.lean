/-
# `Proofs.Color.Hexadecimal` — colours of six hexadecimal digits

Two hexadecimal digits write a number below 256, and three such pairs write a colour.  A pair is
read as a number with a sign would be: a plus sign may stand for its first digit (`IsHexLead`).
Nothing else is taken, so a text without a plus sign is a colour if, and only if, it is six
digits, blanks around them left aside.

The components are the three numbers divided by 255, in doubles with the quotient rounded once.
They never leave the unit interval, so what has been read is not turned down later.
-/
import Mathlib.Tactic.IntervalCases
import PictureTree.Proofs.Color.Doubles
import PictureTree.Proofs.Text.Pieces

namespace PictureTree.Color

/-! ## Digits -/

/-- A hexadecimal digit and its value, in either letter case. -/
def IsHexDigit (c : Char) (n : ℕ) : Prop := n < 16 ∧ (c = n.digitChar ∨ c = n.digitChar.toUpper)

/-- What may stand first in a pair: a digit, or a plus sign, which counts nothing. -/
def IsHexLead (c : Char) (n : ℕ) : Prop := IsHexDigit c n ∨ c = '+' ∧ n = 0

/-- Two characters and the number that they write. -/
def IsHexPair (first : Char → ℕ → Prop) (high low : Char) (n : ℕ) : Prop :=
  ∃ h l, first high h ∧ IsHexDigit low l ∧ 16 * h + l = n

/-- Six characters and the three numbers that they write. -/
def IsHexTriple (first : Char → ℕ → Prop) (s : List Char) (r g b : ℕ) : Prop :=
  ∃ r₁ r₀ g₁ g₀ b₁ b₀, s = [r₁, r₀, g₁, g₀, b₁, b₀] ∧
    IsHexPair first r₁ r₀ r ∧ IsHexPair first g₁ g₀ g ∧ IsHexPair first b₁ b₀ b

theorem hexDigit?_digitChar {n : ℕ} (h : n < 16) :
    hexDigit? n.digitChar = some n ∧ hexDigit? n.digitChar.toUpper = some n := by
  interval_cases n <;> exact ⟨rfl, rfl⟩

theorem range_of_hexDigit? {c : Char} {n : ℕ} (h : hexDigit? c = some n) :
    c.toNat ∈ Set.Icc 48 57 ∨ c.toNat ∈ Set.Icc 97 102 ∨ c.toNat ∈ Set.Icc 65 70 := by
  unfold hexDigit? at h
  split at h
  · next hdigit => exact .inl (Char.isDigit_iff_toNat.mp hdigit)
  split at h
  · next hlower =>
      rw [Bool.and_eq_true, decide_eq_true_eq, decide_eq_true_eq] at hlower
      exact .inr (.inl hlower)
  split at h
  · next hupper =>
      rw [Bool.and_eq_true, decide_eq_true_eq, decide_eq_true_eq] at hupper
      exact .inr (.inr hupper)
  · cases h

theorem hexDigit?_eq_some_iff {c : Char} {n : ℕ} : hexDigit? c = some n ↔ IsHexDigit c n := by
  constructor
  · intro h
    -- Only 22 code points are left, and each has its own digit.
    have hrange := range_of_hexDigit? h
    rw [← Char.ofNat_toNat c] at h ⊢
    generalize c.toNat = k at h hrange
    obtain ⟨hlow, hhigh⟩ | ⟨hlow, hhigh⟩ | ⟨hlow, hhigh⟩ := hrange <;>
      interval_cases k <;> cases h <;> exact ⟨by decide, by decide⟩
  · rintro ⟨hlt, rfl | rfl⟩
    · exact (hexDigit?_digitChar hlt).1
    · exact (hexDigit?_digitChar hlt).2

theorem not_isHexDigit_plus {n : ℕ} : ¬ IsHexDigit '+' n := by
  rw [← hexDigit?_eq_some_iff]
  exact nofun

/-! ## Pairs -/

theorem channel?_eq_some_iff {high low : Char} {n : ℕ} :
    channel? high low = some n ↔ IsHexPair IsHexLead high low n := by
  by_cases hplus : high = '+'
  · subst hplus
    have hlead (h : ℕ) : IsHexLead '+' h ↔ h = 0 := by simp [IsHexLead, not_isHexDigit_plus]
    simp [channel?, IsHexPair, hlead, hexDigit?_eq_some_iff]
  · have hlead (h : ℕ) : IsHexLead high h ↔ IsHexDigit high h := by simp [IsHexLead, hplus]
    simp [channel?, IsHexPair, hlead, hplus, Option.bind_eq_some_iff, hexDigit?_eq_some_iff]

theorem IsHexPair.le {high low : Char} {n : ℕ} (h : IsHexPair IsHexLead high low n) : n ≤ 255 := by
  obtain ⟨h, l, hlead, ⟨hl, -⟩, rfl⟩ := h
  obtain ⟨hh, -⟩ | ⟨-, rfl⟩ := hlead <;> omega

theorem IsHexPair.mono {first second : Char → ℕ → Prop} {high low : Char} {n : ℕ}
    (hfirst : ∀ m, first high m → second high m) (h : IsHexPair first high low n) :
    IsHexPair second high low n := by
  obtain ⟨h, l, hh, hl, rfl⟩ := h
  exact ⟨h, l, hfirst h hh, hl, rfl⟩

theorem IsHexTriple.mono {first second : Char → ℕ → Prop} {s : List Char} {r g b : ℕ}
    (hfirst : ∀ c ∈ s, ∀ m, first c m → second c m) (h : IsHexTriple first s r g b) :
    IsHexTriple second s r g b := by
  obtain ⟨r₁, r₀, g₁, g₀, b₁, b₀, rfl, hr, hg, hb⟩ := h
  exact ⟨r₁, r₀, g₁, g₀, b₁, b₀, rfl, hr.mono (hfirst _ (by simp)), hg.mono (hfirst _ (by simp)),
    hb.mono (hfirst _ (by simp))⟩

/-! ## Components -/

section Levels

variable {α : Type} [Scalar α]

open scoped PictureTree.Scalar in
/-- The component that a number out of 255 stands for. -/
def level (n : ℕ) : α := Scalar.ofNat n / 255

open scoped PictureTree.Scalar in
/-- All numbers up to 255 stand for components. -/
structure HasLevels (α : Type) [Scalar α] : Prop where
  one : Scalar.inUnit (1 : α) = true
  level {n : ℕ} (h : n ≤ 255) : Scalar.inUnit (level n : α) = true

theorem level_exact {β : Type} [ExactScalar β] (n : ℕ) : (level n : β) = n / 255 := by
  simp only [level, ExactScalar.ofNat_eq, ExactScalar.literal_eq, Nat.cast_ofNat]

/-- In doubles the quotient is rounded once. -/
theorem rounds_level {n : ℕ} (h : n ≤ 255) : Double.Rounds (n / 255) (level n : Float) := by
  have hn : Double.value? (Scalar.ofNat n) = some (n : ℚ) := by
    rcases n.eq_zero_or_pos with rfl | hpos
    · exact Double.value?_zero
    · exact Double.value?_literal hpos (by omega)
  exact Double.rounds_div hn Double.value?_255 (by norm_num)

theorem hasLevels_exact {β : Type} [ExactScalar β] : HasLevels β where
  one := by simp [Scalar.inUnit, Scalar.le]
  level {n} h := by
    have hn : (n : β) ≤ 255 := by exact_mod_cast h
    have hunit : 0 ≤ (n : β) / 255 ∧ (n : β) / 255 ≤ 1 :=
      ⟨by positivity, (div_le_one (by norm_num)).mpr hn⟩
    simpa [level_exact, Scalar.inUnit, Scalar.le] using hunit

theorem hasLevels_double : HasLevels Float where
  one := Double.inUnit_iff.mpr ⟨1, Double.value?_one, zero_le_one, le_rfl⟩
  level {n} h := by
    have hn : (n : ℚ) ≤ 255 := by exact_mod_cast h
    exact Double.inUnit_iff.mpr ((rounds_level h).within Double.value?_zero Double.value?_one
      (by positivity) ((div_le_one (by norm_num)).mpr hn))

/-! ## Conversions -/

/-- Six characters are a colour if they are three pairs. -/
theorem ofHex?_eq_some_iff (hlevels : HasLevels α) {s : List Char} {c : Color α} :
    ofHex? s = some c ↔
      ∃ r g b, IsHexTriple IsHexLead s r g b ∧ c = rgb (level r) (level g) (level b) := by
  constructor
  · intro h
    unfold ofHex? at h
    split at h
    · next r₁ r₀ g₁ g₀ b₁ b₀ =>
        simp only [bind, Option.bind_eq_some_iff, channel?_eq_some_iff] at h
        obtain ⟨r, hr, g, hg, b, hb, h⟩ := h
        obtain ⟨rfl, -⟩ := ofComponents?_eq_ok_iff.mp (ok_of_toOption h)
        exact ⟨r, g, b, ⟨r₁, r₀, g₁, g₀, b₁, b₀, rfl, hr, hg, hb⟩, rfl⟩
    · cases h
  · rintro ⟨r, g, b, ⟨r₁, r₀, g₁, g₀, b₁, b₀, rfl, hr, hg, hb⟩, rfl⟩
    have hok := ofComponents?_eq (hlevels.level hr.le) (hlevels.level hg.le)
      (hlevels.level hb.le) hlevels.one
    simp only [ofHex?, channel?_eq_some_iff.mpr hr, channel?_eq_some_iff.mpr hg,
      channel?_eq_some_iff.mpr hb]
    exact congrArg Except.toOption hok

theorem ofModel?_html (values : String) :
    (ofModel? "HTML" values : Except ResolveError (Color α)) =
      match ofHex? (Text.trim values.toList) with
      | some c => .ok c
      | none => .error (.invalidColorValues "HTML" values) := rfl

theorem ofModel?_html_eq_ok_iff (hlevels : HasLevels α) {values : String} {c : Color α} :
    ofModel? "HTML" values = .ok c ↔
      ∃ r g b, IsHexTriple IsHexLead (Text.trim values.toList) r g b ∧
        c = rgb (level r) (level g) (level b) := by
  rw [ofModel?_html, ← ofHex?_eq_some_iff hlevels]
  split
  · next d hd => simp [hd]
  · next hnone => simp [hnone]

end Levels

/-- A text is a colour if, and only if, it is three pairs of characters, blanks around them left
aside; its components are the numbers of the pairs divided by 255, and in doubles these quotients
rounded once.  Six digits are always a colour, and a colour without a plus sign is six digits.
All else is reported as invalid values. -/
theorem ofModel?_hexadecimal {β : Type} [ExactScalar β] (values : String) :
    let s := Text.trim values.toList
    (∀ c : Color Float, ofModel? "HTML" values = .ok c ↔
      ∃ r g b, IsHexTriple IsHexLead s r g b ∧ c = rgb (level r) (level g) (level b)) ∧
    (∀ c : Color β, ofModel? "HTML" values = .ok c ↔
      ∃ r g b : ℕ, IsHexTriple IsHexLead s r g b ∧ c = rgb (r / 255 : β) (g / 255) (b / 255)) ∧
    (∀ n : ℕ, n ≤ 255 → Double.Rounds (n / 255) (level n)) ∧
    (∀ r g b, IsHexTriple IsHexDigit s r g b →
      ofModel? "HTML" values = .ok (rgb (level r) (level g) (level b) : Color Float)) ∧
    ('+' ∉ values.toList → ∀ c : Color Float, ofModel? "HTML" values = .ok c →
      ∃ r g b, IsHexTriple IsHexDigit s r g b ∧ c = rgb (level r) (level g) (level b)) ∧
    ∀ e, (ofModel? "HTML" values : Except ResolveError (Color Float)) = .error e →
      e = .invalidColorValues "HTML" values := by
  intro s
  refine ⟨fun c => ofModel?_html_eq_ok_iff hasLevels_double, fun c => ?_, fun n hn =>
    rounds_level hn, fun r g b h => ?_, fun hplus c hc => ?_, fun e he => ?_⟩
  · rw [ofModel?_html_eq_ok_iff hasLevels_exact]
    simp only [level_exact, s]
  · have hlead : IsHexTriple IsHexLead s r g b := h.mono fun _ _ _ => .inl
    exact (ofModel?_html_eq_ok_iff hasLevels_double).mpr ⟨r, g, b, hlead, rfl⟩
  · obtain ⟨r, g, b, h, rfl⟩ := (ofModel?_html_eq_ok_iff hasLevels_double).mp hc
    refine ⟨r, g, b, h.mono fun c hmem m hm => hm.resolve_right fun hsign => ?_, rfl⟩
    exact hplus (hsign.1 ▸ Text.mem_of_mem_trim hmem)
  · rw [ofModel?_html] at he
    split at he
    · cases he
    · exact (Except.error.inj he).symm

/-- Three plus signs with a digit each are a colour, although they are not six digits. -/
theorem ofModel?_plus_signs :
    (ofModel? "HTML" "+f+f+f" : Except ResolveError (Color Float)).toOption.isSome = true ∧
      ¬ ∃ r g b, IsHexTriple IsHexDigit (Text.trim "+f+f+f".toList) r g b := by
  refine ⟨by decide +kernel, ?_⟩
  rintro ⟨r, g, b, r₁, r₀, g₁, g₀, b₁, b₀, hs, ⟨h, l, hh, -⟩, -⟩
  have htrim : Text.trim "+f+f+f".toList = ['+', 'f', '+', 'f', '+', 'f'] := by decide
  rw [htrim, List.cons.injEq] at hs
  exact not_isHexDigit_plus (hs.1 ▸ hh)

end PictureTree.Color
