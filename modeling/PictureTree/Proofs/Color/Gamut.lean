/-
# `Proofs.Color.Gamut` — colours between zero and one

A colour is in gamut if all its components lie in the unit interval.  There are
two ways to make a colour, and only one of them looks:

    the values of a model    components out of range are an error
                             (`inGamut_of_ofModel?`)
    a mix of two colours     nothing is checked

A mix takes a share of one colour and the rest of the other, and the share is
clamped first; so with two colours in gamut it is a mean of values of the unit
interval (`InGamut.mix`).  A name may mix any number of colours, in any shares,
and stays in gamut if the palette is (`Palette.InGamut.resolve`).
-/
import PictureTree.Color.Palette
import PictureTree.Proofs.Scalar.Extended

namespace PictureTree

/-! ## Results of computations that may fail -/

section Results

variable {ε β γ : Type}

theorem exists_ok_of_bind {e : Except ε β} {f : β → Except ε γ} {c : γ}
    (h : e >>= f = .ok c) : ∃ b, e = .ok b ∧ f b = .ok c := by
  cases e with
  | error _ => cases h
  | ok b => exact ⟨b, rfl, h⟩

theorem ok_of_toOption {e : Except ε β} {b : β} (h : e.toOption = some b) : e = .ok b := by
  cases e with
  | error _ => cases h
  | ok b' => exact congrArg Except.ok (Option.some.inj h)

end Results

namespace Color

section Models

variable {α : Type} [Scalar α]

/-- All components of a colour lie in the unit interval. -/
structure InGamut (c : Color α) : Prop where
  r : Scalar.inUnit c.r = true
  g : Scalar.inUnit c.g = true
  b : Scalar.inUnit c.b = true
  o : Scalar.inUnit c.o = true

/-! ## Colour models -/

theorem inUnit_of_component? {name : String} {x y : α} (h : component? name x = .ok y) :
    Scalar.inUnit y = true := by
  unfold component? at h
  split at h
  · next hunit =>
      obtain rfl := Except.ok.inj h
      exact hunit
  · cases h

/-- What is admitted as a colour is in gamut. -/
theorem inGamut_of_ofComponents? {r g b o : α} {c : Color α}
    (h : ofComponents? r g b o = .ok c) : c.InGamut := by
  obtain ⟨r', hr, h⟩ := exists_ok_of_bind h
  obtain ⟨g', hg, h⟩ := exists_ok_of_bind h
  obtain ⟨b', hb, h⟩ := exists_ok_of_bind h
  obtain ⟨o', ho, h⟩ := exists_ok_of_bind h
  obtain rfl := Except.ok.inj h
  exact ⟨inUnit_of_component? hr, inUnit_of_component? hg, inUnit_of_component? hb,
    inUnit_of_component? ho⟩

/-- Components in range are admitted. -/
theorem ofComponents?_eq {r g b o : α} (hr : Scalar.inUnit r = true) (hg : Scalar.inUnit g = true)
    (hb : Scalar.inUnit b = true) (ho : Scalar.inUnit o = true) :
    ofComponents? r g b o = .ok ⟨r, g, b, o⟩ := by
  simp only [ofComponents?, component?, hr, hg, hb, ho, if_true]
  rfl

theorem inGamut_of_ofRgb? {r g b : α} {c : Color α} (h : (ofRgb? r g b).toOption = some c) :
    c.InGamut :=
  inGamut_of_ofComponents? (ok_of_toOption h)

theorem inGamut_of_ofHex? {s : List Char} {c : Color α} (h : ofHex? s = some c) : c.InGamut := by
  unfold ofHex? at h
  split at h
  · simp only [bind, Option.bind_eq_some_iff] at h
    obtain ⟨r, -, g, -, b, -, h⟩ := h
    exact inGamut_of_ofRgb? h
  · cases h

theorem inGamut_of_ofNumbers? {model : Model} {values : String} {c : Color α}
    (h : ofNumbers? model values = some c) : c.InGamut := by
  simp only [ofNumbers?, bind, Option.bind_eq_some_iff] at h
  obtain ⟨ns, -, ⟨r, g, b⟩, -, h⟩ := h
  exact inGamut_of_ofRgb? h

/-- Every colour that a model's values describe is in gamut. -/
theorem inGamut_of_ofModel? {model values : String} {c : Color α}
    (h : ofModel? model values = .ok c) : c.InGamut := by
  simp only [ofModel?] at h
  split at h
  · split at h
    · next hhex =>
        obtain rfl := Except.ok.inj h
        exact inGamut_of_ofHex? hhex
    · cases h
  · split at h
    · split at h
      · next hnumbers =>
          obtain rfl := Except.ok.inj h
          exact inGamut_of_ofNumbers? hnumbers
      · cases h
    · split at h <;> cases h

end Models

/-! ## Mixes -/

variable {α : Type} [ExactScalar α]

/-- Whatever a ratio is, it comes down to a share. -/
theorem inUnit_share (ratio : Extended α) : Scalar.inUnit (share ratio) = true := by
  unfold share
  split
  · next hfinite =>
      obtain ⟨a, rfl⟩ := Extended.isFinite_iff.mp hfinite
      exact Extended.inUnit_clampUnit a
  · exact Extended.inUnit_one

/-- A mix of two colours in gamut is in gamut, whatever the ratio. -/
theorem InGamut.mix {c d : Color (Extended α)} (hc : c.InGamut) (hd : d.InGamut)
    (ratio : Extended α) : (c.mix d ratio).InGamut :=
  have ht := inUnit_share ratio
  ⟨Extended.inUnit_mean hc.r hd.r ht, Extended.inUnit_mean hc.g hd.g ht,
    Extended.inUnit_mean hc.b hd.b ht, Extended.inUnit_mean hc.o hd.o ht⟩

/-! ## Colours by name -/

theorem inGamut_rgb {r g b : Extended α} (hr : Scalar.inUnit r = true)
    (hg : Scalar.inUnit g = true) (hb : Scalar.inUnit b = true) : (rgb r g b).InGamut :=
  ⟨hr, hg, hb, Extended.inUnit_one⟩

theorem inGamut_gray {level : Extended α} (h : Scalar.inUnit level = true) :
    (gray level).InGamut := inGamut_rgb h h h

theorem inGamut_black : (black : Color (Extended α)).InGamut := inGamut_gray Extended.inUnit_zero

theorem inGamut_white : (white : Color (Extended α)).InGamut := inGamut_gray Extended.inUnit_one

end Color

namespace Palette

section Entries

variable {α : Type} [Scalar α] {p : Palette α}

/-- All colours of a palette are in gamut. -/
def InGamut (p : Palette α) : Prop := ∀ entry ∈ p.named, entry.2.InGamut

namespace InGamut

theorem lookup? (h : p.InGamut) {name : String} {c : Color α} (hc : p.lookup? name = some c) :
    c.InGamut := by
  obtain ⟨before, after, hnamed, -⟩ := List.lookup_eq_some_iff.mp hc
  refine h (name, c) ?_
  rw [hnamed]
  exact List.mem_append_right _ List.mem_cons_self

theorem find (h : p.InGamut) {name : List Char} {c : Color α} (hc : p.find name = .ok c) :
    c.InGamut := by
  simp only [Palette.find] at hc
  split at hc
  · next hlookup =>
      obtain rfl := Except.ok.inj hc
      exact h.lookup? hlookup
  · cases hc

/-- A definition whose values describe a colour adds one in gamut. -/
theorem defineModel (h : p.InGamut) (name model values : String) :
    (p.defineModel name model values).InGamut := by
  unfold Palette.defineModel
  split
  · next hc => exact List.forall_mem_cons.mpr ⟨Color.inGamut_of_ofModel? hc, h⟩
  · exact h

end InGamut

end Entries

variable {α : Type} [ExactScalar α] {p : Palette (Extended α)}

/-- The colour mixed so far stays in gamut with every further one. -/
theorem InGamut.mixes (h : p.InGamut) {whole : String} {c d : Color (Extended α)}
    (hc : c.InGamut) {pieces : List (List Char)} (hd : p.mixes whole c pieces = .ok d) :
    d.InGamut := by
  fun_induction p.mixes whole c pieces with
  | case1 c =>
      obtain rfl := Except.ok.inj hd
      exact hc
  | case2 c percent =>
      obtain ⟨n, -, hd⟩ := exists_ok_of_bind hd
      obtain rfl := Except.ok.inj hd
      exact hc.mix Color.inGamut_white _
  | case3 c percent other more ih =>
      obtain ⟨n, -, hd⟩ := exists_ok_of_bind hd
      obtain ⟨other, hother, hd⟩ := exists_ok_of_bind hd
      exact ih _ _ (hc.mix (h.find hother) _) hd

/-- The colour that a name stands for is in gamut if the palette is. -/
theorem InGamut.resolve (h : p.InGamut) {name : String} {c : Color (Extended α)}
    (hc : p.resolve name = .ok c) : c.InGamut := by
  simp only [Palette.resolve] at hc
  split at hc
  · exact h.find hc
  · obtain ⟨base, hbase, hc⟩ := exists_ok_of_bind hc
    exact h.mixes (h.find hbase) hc

/-- The predefined colours are in gamut. -/
theorem inGamut_predefined : (predefined : Palette (Extended α)).InGamut := by
  have h0 := @Extended.inUnit_zero α _
  have h1 := @Extended.inUnit_one α _
  simp only [InGamut, predefined, List.forall_mem_cons]
  refine ⟨Color.inGamut_black, Color.inGamut_white, Color.inGamut_rgb h1 h0 h0,
    Color.inGamut_rgb h0 h1 h0, Color.inGamut_rgb h0 h0 h1, Color.inGamut_rgb h0 h1 h1,
    Color.inGamut_rgb h1 h0 h1, Color.inGamut_rgb h1 h1 h0,
    Color.inGamut_gray (Extended.inUnit_fraction (show 5 ≤ 10 ^ 1 by decide)),
    Color.inGamut_gray (Extended.inUnit_fraction (show 75 ≤ 10 ^ 2 by decide)),
    Color.inGamut_gray (Extended.inUnit_fraction (show 25 ≤ 10 ^ 2 by decide)), nofun⟩

end Palette

end PictureTree
