/-
# `Proofs.Context.Ranges` — what the numbers of a context may be

Renderers divide by the units, take the spaces of dots and hatch lines as steps,
and mix colours by opacities.  `Context.InRange` says that this can be done, and
no parameter takes it away: one whose value is out of range is

    rejected     gradmidpoint, the lengths, the units
    ignored      opacity, strokeopacity
    clamped      framearc
    raised       plotpoints

`inRange_put` goes through the settings, each with what its reader has checked.
-/
import PictureTree.Proofs.Context.Settings
import PictureTree.Proofs.Scalar.Doubles
import PictureTree.Proofs.Style.Checks
import PictureTree.Proofs.Style.Independence

open scoped PictureTree.Scalar

namespace PictureTree.Context

section Ranges

variable {α : Type} [Scalar α]

/-- Finite and not below zero. -/
def IsExtent (x : α) : Prop := Scalar.isFinite x = true ∧ Scalar.le 0 x = true

/-- Finite and above zero. -/
def IsUnit (x : α) : Prop := Scalar.isFinite x = true ∧ Scalar.lt 0 x = true

/-- The numbers of a context are of use where they are used. -/
structure InRange (c : Context α) : Prop where
  opacity : Scalar.inUnit c.filling.opacity = true
  strokeOpacity : Scalar.inUnit c.stroke.opacity = true
  frameArc : Scalar.inUnit c.frameArc = true
  midPoint : Scalar.inUnit c.filling.gradient.midPoint = true
  thickness : IsExtent c.stroke.thickness
  dotSep : IsExtent c.stroke.dotSep
  hatchSep : IsExtent c.filling.hatching.sep
  hatchWidth : IsExtent c.filling.hatching.width
  doubleSep : ∀ x, c.double.sep = some x → IsExtent x
  gridWidth : IsExtent c.grid.width
  labelSize : IsExtent c.grid.labelSize
  subgridWidth : IsExtent c.grid.subgridWidth
  unit : IsUnit c.units.unit
  xUnit : IsUnit c.units.xUnit
  yUnit : IsUnit c.units.yUnit
  plotPoints : 2 ≤ c.plotting.points

end Ranges

variable {c : Context Float} {r : Reading Float} {p : Param} {ppc : Float}

/-! ## At the start -/

theorem points_isExtent {n : Float} (hn : Double.isSmall (n * pointLength) = true)
    (hppc : IsUnit ppc) : IsExtent (points ppc n) :=
  Double.scaled_checked hn hppc.1 hppc.2

theorem inRange_initial (hppc : IsUnit ppc) : (initial ppc).InRange :=
  have hone : Scalar.inUnit (1 : Float) = true := by decide
  have hcentimetre : IsUnit (1 : Float) := ⟨by decide, by decide⟩
  { opacity := hone
    strokeOpacity := hone
    frameArc := show Scalar.inUnit (0 : Float) = true by decide
    midPoint := show Scalar.inUnit (0.9 : Float) = true by decide
    thickness := points_isExtent (by decide) hppc
    dotSep := points_isExtent (by decide) hppc
    hatchSep := points_isExtent (by decide) hppc
    hatchWidth := points_isExtent (by decide) hppc
    doubleSep := nofun
    gridWidth := points_isExtent (by decide) hppc
    labelSize := points_isExtent (by decide) hppc
    subgridWidth := points_isExtent (by decide) hppc
    unit := hcentimetre
    xUnit := hcentimetre
    yUnit := hcentimetre
    plotPoints := show 2 ≤ 50 by decide }

/-! ## One setting -/

/-- An opacity out of range leaves the one that was there. -/
theorem inUnit_chosen {x y : Float} (hy : Scalar.inUnit y = true) :
    Scalar.inUnit (if Scalar.inUnit x then x else y) = true := by
  split <;> assumption

theorem inRange_put_stroke (h : c.InRange) {t : Stroke.Setting Float}
    (ht : Setting.From r p (.stroke t)) : (c.put (.stroke t)).InRange := by
  cases t with
  | thickness w => exact { h with thickness := Reading.extent_checked ht }
  | dotSep d => exact { h with dotSep := Reading.extent_checked ht }
  | opacity o =>
      rw [put, Stroke.put_opacity]
      exact { h with strokeOpacity := inUnit_chosen h.strokeOpacity }
  | _ => exact { h with }

theorem inRange_put_filling (h : c.InRange) {t : Filling.Setting Float}
    (ht : Setting.From r p (.filling t)) : (c.put (.filling t)).InRange := by
  cases t with
  | opacity o =>
      rw [put, Filling.put_opacity]
      exact { h with opacity := inUnit_chosen h.opacity }
  | gradMidPoint x => exact { h with midPoint := (Reading.proportion_checked ht).2 }
  | hatchSep d => exact { h with hatchSep := Reading.extent_checked ht }
  | hatchWidth w => exact { h with hatchWidth := Reading.extent_checked ht }
  | _ => exact { h with }

theorem inRange_put (h : c.InRange) {s : Setting Float} (hs : s.From r p) :
    (c.put s).InRange := by
  cases s with
  | scale t =>
      have hunit (x : Float) : Reading.unitLength p = .ok x → IsUnit x := Reading.unitLength_checked
      cases t with
      | unit cm => exact { h with unit := hunit cm hs }
      | xUnit cm => exact { h with xUnit := hunit cm hs }
      | yUnit cm => exact { h with yUnit := hunit cm hs }
  | stroke t => exact inRange_put_stroke h hs
  | frameArc x =>
      obtain ⟨y, hy, rfl⟩ := hs
      exact { h with frameArc := Double.inUnit_clampUnit (Reading.isFinite_of_number hy) }
  | filling t => exact inRange_put_filling h hs
  | double t =>
      cases t with
      | sep d =>
          have hd : IsExtent d := Reading.extent_checked hs
          exact { h with doubleSep := fun x hx => Option.some.inj hx ▸ hd }
      | _ => exact { h with }
  | grid t =>
      cases t with
      | width w => exact { h with gridWidth := Reading.extent_checked hs }
      | labelSize x => exact { h with labelSize := Reading.extent_checked hs }
      | subgridWidth w => exact { h with subgridWidth := Reading.extent_checked hs }
      | _ => exact { h with }
  | plotting t =>
      cases t with
      | points n => exact { h with plotPoints := Nat.le_max_right n 2 }
      | _ => exact { h with }
  | _ => exact { h with }

/-! ## All settings -/

/-- Whatever parameters are set, with whatever palettes, and whether they can be
read or not, the numbers of a context stay in their ranges. -/
theorem inRange_setEach (hppc : IsUnit ppc) (calls : List (Palette Float × Param)) :
    ((initial ppc).setEach calls).InRange :=
  setEach_keeps (P := InRange) (fun _ _ _ _ h hread => inRange_put h (Setting.from_of_read hread))
    (inRange_initial hppc) calls

/-- A length that is taken, and an opacity, a unit, a rounding and a length that are out
of their ranges. -/
theorem inRange_setEach_mixed :
    IsUnit (50 : Float) ∧ ((initial (50 : Float)).setEach [
      (.predefined, ⟨"linewidth", "2mm"⟩), (⟨[]⟩, ⟨"opacity", "2"⟩), (⟨[]⟩, ⟨"unit", "0"⟩),
      (⟨[]⟩, ⟨"framearc", "-3"⟩), (.predefined, ⟨"dotsep", "-1"⟩)]).InRange :=
  have hppc : IsUnit (50 : Float) := ⟨by decide, by decide⟩
  ⟨hppc, inRange_setEach hppc _⟩

end PictureTree.Context
