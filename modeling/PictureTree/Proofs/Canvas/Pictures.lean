/-
# `Proofs.Canvas.Pictures` — the proportions of included pictures

A picture begins with the size of its file.  Each parameter changes its width or its height and
computes the other measure anew, or scales both; so the width stays to the height as it is in the
file, whatever parameters there are and in whatever order (`Inclusion.Proportioned`).  A negative
length counts as a positive one, and so does a negative scale; so no measure is ever negative.

A parameter with an unknown key, or with a value that is no quantity, is passed over.
-/
import Mathlib
import PictureTree.Proofs.Canvas.Chords
import PictureTree.Proofs.Scalar.Exact
import PictureTree.Proofs.Shape.Resolution

namespace PictureTree

/-! ## Parameters that are passed over -/

/-- A parameter that no picture can use: its key is unknown, or its value is no quantity. -/
def Param.Unusable (p : Param) : Prop :=
  p.key ∉ ["width", "height", "scale", "angle"] ∨ Quantity.ofChars? p.value.toList = none

section Unusable

variable {α : Type} [Scalar α] {p : Param}

theorem Inclusion.set_of_unusable (h : p.Unusable) (units : Units α) (r : α) (i : Inclusion α) :
    set units r i p = i := by
  unfold set
  split
  case h_5 => rfl
  all_goals
    next hkey hvalue => exact absurd h (by simp [Param.Unusable, hkey, hvalue])

theorem Inclusion.ofParams_of_unusable (h : p.Unusable) (units : Units α) (before after : List Param)
    (size : ℕ × ℕ) :
    ofParams units (before ++ p :: after) size = ofParams units (before ++ after) size := by
  simp only [ofParams, List.foldl_append, List.foldl_cons, set_of_unusable h]

theorem Scope.picture?_of_unusable (h : p.Unusable) (o : Options α) (c : Context α)
    (before after : List Param) (path : String) :
    picture? o c (before ++ p :: after) path = picture? o c (before ++ after) path := by
  have hfigure (size : ℕ × ℕ) : Inclusion.figure? c.units (before ++ p :: after) path size
      = Inclusion.figure? c.units (before ++ after) path size := by
    simp only [Inclusion.figure?, ← Inclusion.ofParams.eq_1, Inclusion.ofParams_of_unusable h]
  simp only [picture?, hfigure]

end Unusable

/-! ## Proportions -/

namespace Inclusion

variable {α : Type} [ExactScalar α]

/-- A picture in the proportions of a file, with no measure below zero. -/
structure Proportioned (w h : ℕ) (i : Inclusion α) : Prop where
  width_mul : i.width * h = i.height * w
  width_nonneg : 0 ≤ i.width
  height_nonneg : 0 ≤ i.height

variable {w h : ℕ} {i : Inclusion α}

theorem ratio_eq (hh : 0 < h) : ratio w h = (w : α) / h := by
  have hone : (1 : α) ≤ h := by exact_mod_cast hh
  simp only [Inclusion.ratio, ExactScalar.ofNat_eq, ExactScalar.literal_eq, Nat.cast_one,
    ExactScalar.scalar_max_eq, max_eq_left hone]

theorem proportioned_ofSize (w h : ℕ) : (ofSize w h : Inclusion α).Proportioned w h := by
  constructor <;> simp only [ofSize, ExactScalar.ofNat_eq]
  · exact mul_comm ..
  · exact Nat.cast_nonneg _
  · exact Nat.cast_nonneg _

/-- Every parameter keeps the proportions. -/
theorem Proportioned.set (hi : i.Proportioned w h) (hw : 0 < w) (hh : 0 < h) (units : Units α)
    (p : Param) : (Inclusion.set units (ratio w h) i p).Proportioned w h := by
  have hw : (0 : α) < w := by exact_mod_cast hw
  have hh' : (0 : α) < h := by exact_mod_cast hh
  rw [ratio_eq hh]
  unfold Inclusion.set
  split
  · next q _ _ =>
      have hnonneg : 0 ≤ |units.length q| := abs_nonneg _
      constructor
      · show |units.length q| * h = |units.length q| / (w / h) * w
        field_simp
      · exact hnonneg
      · exact div_nonneg hnonneg (by positivity)
  · next q _ _ =>
      have hnonneg : 0 ≤ |units.length q| := abs_nonneg _
      constructor
      · show |units.length q| * (w / h) * h = |units.length q| * w
        field_simp
      · exact mul_nonneg hnonneg (by positivity)
      · exact hnonneg
  · next q _ _ =>
      have hnonneg : 0 ≤ |(q.value : α)| := abs_nonneg _
      constructor
      · show i.width * |(q.value : α)| * h = i.height * |(q.value : α)| * w
        linear_combination |(q.value : α)| * hi.width_mul
      · exact mul_nonneg hi.width_nonneg hnonneg
      · exact mul_nonneg hi.height_nonneg hnonneg
  · exact ⟨hi.width_mul, hi.width_nonneg, hi.height_nonneg⟩
  · exact hi

theorem proportioned_ofParams (hw : 0 < w) (hh : 0 < h) (units : Units α) (ps : List Param) :
    (ofParams units ps (w, h)).Proportioned w h :=
  List.foldlRecOn ps _ (proportioned_ofSize w h) fun _ hi p _ => hi.set hw hh units p

theorem figure?_eq (units : Units α) (ps : List Param) (path : String) (size : ℕ × ℕ) :
    figure? units ps path size =
      let i := ofParams units ps size
      some (.ofOutline (.picture .origin path i.width i.height) i.rotation) := by
  rfl

end Inclusion

namespace Scope

variable {α : Type} [ExactScalar α]

/-- A picture never closes an arc. -/
theorem draw_picture {f : Figure α} {position : Point α} {path : String} {width height : α}
    (h : f.outline = .picture position path width height) (tolerance : α)
    (drawn : List (Shape α)) : draw tolerance drawn (.one f) = .one f :: drawn := by
  refine draw_of_not_closes fun last _ hcloses => ?_
  obtain ⟨-, g, -, p, q, -, hg, -, houtline, -⟩ := hcloses
  obtain rfl := Grouping.one.inj hg
  cases h.symm.trans houtline

/-- A picture of a file of at least one pixel is drawn in the proportions of the file, with no
measure below zero; and a parameter that it cannot use may as well be missing. -/
theorem obey_includePicture (o : Options α) (palette : Palette α) (s : Scope α)
    (params : List Param) (path : String) {w h : ℕ} (hsize : o.pictureSize? path = some (w, h))
    (hw : 0 < w) (hh : 0 < h) :
    (∃ (f : Figure α) (width height : α),
      s.obey o palette (.includePicture params path) = { s with drawn := .one f :: s.drawn } ∧
      f.outline = .picture .origin path width height ∧
      width * h = height * w ∧ 0 ≤ width ∧ 0 ≤ height) ∧
    ∀ before p after, params = before ++ p :: after → p.Unusable →
      s.obey o palette (.includePicture params path)
        = s.obey o palette (.includePicture (before ++ after) path) := by
  let i := Inclusion.ofParams s.context.units params (w, h)
  let f : Figure α := .ofOutline (.picture .origin path i.width i.height) i.rotation
  have hpicture : picture? o s.context params path = some f := by
    rw [picture?, hsize]
    exact Inclusion.figure?_eq ..
  have hi := Inclusion.proportioned_ofParams hw hh s.context.units params
  refine ⟨⟨f, i.width, i.height, ?_, rfl, hi.width_mul, hi.width_nonneg, hi.height_nonneg⟩,
    fun before p after hparams hp => ?_⟩
  · show s.emitAll o (picture? o s.context params path).toList = _
    have houtline : f.outline = .picture .origin path i.width i.height := rfl
    rw [hpicture]
    exact congrArg (fun drawn => { s with drawn := drawn }) (draw_picture houtline ..)
  · show s.emitAll o (picture? o s.context params path).toList
      = s.emitAll o (picture? o s.context (before ++ after) path).toList
    rw [hparams, picture?_of_unusable hp]

/-- A picture of 40 by 20 pixels with a width, a scale below zero, and a parameter between them
that is not known. -/
theorem obey_includePicture_scaled :
    let o : Options ℝ := ⟨50, 1 / 2, fun _ => some (40, 20)⟩
    let s : Scope ℝ := ofContext (.initial 50)
    let width : Param := ⟨"width", "2"⟩
    let scale : Param := ⟨"scale", "-3"⟩
    let params : List Param := [width, ⟨"depth", "1"⟩, scale]
    o.pictureSize? "pier.png" = some (40, 20) ∧ 0 < 40 ∧ 0 < 20 ∧
    (∃ (f : Figure ℝ) (width height : ℝ),
      (s.obey o .predefined (.includePicture params "pier.png")).drawn = [.one f] ∧
      f.outline = .picture .origin "pier.png" width height ∧
      width * 20 = height * 40 ∧ 0 ≤ width ∧ 0 ≤ height) ∧
    s.obey o .predefined (.includePicture params "pier.png")
      = s.obey o .predefined (.includePicture [width, scale] "pier.png") := by
  intro o s width scale params
  have hunusable : Param.Unusable ⟨"depth", "1"⟩ := .inl (by decide)
  obtain ⟨⟨f, w, h, hdrawn, houtline, hratio, hsigns⟩, hremoved⟩ :=
    obey_includePicture o .predefined s params "pier.png" (w := 40) (h := 20) rfl (by decide)
      (by decide)
  refine ⟨rfl, by decide, by decide, ⟨f, w, h, ?_, houtline, ?_, hsigns⟩,
    hremoved [width] _ [scale] rfl hunusable⟩
  · rw [hdrawn]
    rfl
  · exact_mod_cast hratio

end Scope

end PictureTree
