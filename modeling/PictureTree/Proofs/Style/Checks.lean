/-
# `Proofs.Style.Checks` — what the readers make sure of

A number of a setting comes from one of a few readers, and what is known of it is
what that reader has checked:

    unitLength       finite, above zero
    extent           finite, not below zero
    length, number   finite
    proportion       finite, in the unit interval
    sizeAndFactor    both finite
    angle            finite in degrees; what is handed on are radians
    twoExtents       nothing

`Setting.from_of_read` says which of them a setting comes from.
-/
import PictureTree.Proofs.Style.Reading

open scoped PictureTree.Scalar

namespace PictureTree

variable {α : Type} [Scalar α] {r : Reading α} {p : Param}

namespace Reading

/-! ## One value -/

theorem orInvalid_eq_ok {β : Type} {x? : Option β} {x : β} :
    orInvalid p x? = .ok x ↔ x? = some x := by
  cases x? <;> simp [orInvalid]

theorem orInvalid_eq_error {β : Type} {x? : Option β} :
    orInvalid p x? = .error (.invalidValue p.key p.value) ↔ x? = none := by
  cases x? <;> simp [orInvalid]

theorem map_eq_ok {β γ : Type} {f : β → γ} {e : Except ResolveError β} {y : γ} :
    e.map f = .ok y ↔ ∃ x, e = .ok x ∧ f x = y := by
  cases e <;> simp [Except.map]

theorem isFinite_of_length {x : α} (h : r.length p = .ok x) : Scalar.isFinite x = true :=
  (Option.filter_eq_some_iff.mp (orInvalid_eq_ok.mp h)).2

theorem extent_checked {x : α} (h : r.extent p = .ok x) :
    Scalar.isFinite x = true ∧ Scalar.le 0 x = true := by
  obtain ⟨hlength, hsign⟩ := Option.filter_eq_some_iff.mp (orInvalid_eq_ok.mp h)
  exact ⟨(Option.filter_eq_some_iff.mp hlength).2, hsign⟩

theorem isFinite_of_number {x : α} (h : number p = .ok x) : Scalar.isFinite x = true :=
  (Option.filter_eq_some_iff.mp (orInvalid_eq_ok.mp h)).2

theorem proportion_checked {x : α} (h : proportion p = .ok x) :
    Scalar.isFinite x = true ∧ Scalar.inUnit x = true := by
  obtain ⟨hnumber, hrange⟩ := Option.filter_eq_some_iff.mp (orInvalid_eq_ok.mp h)
  exact ⟨(Option.filter_eq_some_iff.mp hnumber).2, hrange⟩

theorem sizeAndFactor_checked {m : α × α} (h : r.sizeAndFactor p = .ok m) :
    Scalar.isFinite m.1 = true ∧ Scalar.isFinite m.2 = true :=
  Bool.and_eq_true_iff.mp (Option.filter_eq_some_iff.mp (orInvalid_eq_ok.mp h)).2

theorem unitLength_checked {x : α} (h : unitLength p = .ok x) :
    Scalar.isFinite x = true ∧ Scalar.lt 0 x = true :=
  Bool.and_eq_true_iff.mp (Option.filter_eq_some_iff.mp (orInvalid_eq_ok.mp h)).2

end Reading

namespace Setting

/-! ## One setting -/

/-- The numbers of a setting are what one of the readers hands on. -/
def From (r : Reading α) (p : Param) : Setting α → Prop
  | .scale (.unit x) | .scale (.xUnit x) | .scale (.yUnit x) => Reading.unitLength p = .ok x
  | .stroke (.thickness x) | .stroke (.dotSep x) | .filling (.hatchSep x)
  | .filling (.hatchWidth x) | .double (.sep x) | .grid (.width x) | .grid (.labelSize x)
  | .grid (.subgridWidth x) => r.extent p = .ok x
  | .shadow (.size x) | .axes (.ticksSize x) => r.length p = .ok x
  | .stroke (.opacity x) | .filling (.opacity x) | .arrows (.length x) | .arrows (.inset x)
  | .arrows (.bracket x) | .arrows (.roundBracket x) | .dots (.scale x) | .axes (.originX x)
  | .axes (.originY x) | .axes (.incrementX x) | .axes (.incrementY x) | .axes (.distanceX x)
  | .axes (.distanceY x) => Reading.number p = .ok x
  | .frameArc x => ∃ y, Reading.number p = .ok y ∧ Scalar.clampUnit y = x
  | .filling (.gradMidPoint x) => Reading.proportion p = .ok x
  | .filling (.gradAngle x) | .filling (.hatchAngle x) | .shadow (.angle x)
  | .dots (.angle x) => Reading.angle p = .ok x
  | .arrows (.size m) | .arrows (.bar m) | .dots (.size m) => r.sizeAndFactor p = .ok m
  | .stroke (.dash black white) => r.twoExtents p = .ok (black, white)
  | .shapeAngle x => ∃ degrees, Reading.number p = .ok degrees ∧ Scalar.rotation degrees = x
  | _ => True

theorem yields_from_scale :
    Yields (fun t => From r p (.scale t)) (Units.Setting.read? p) := by
  unfold Units.Setting.read?
  split <;> first
    | exact yields_none
    | exact yields_map fun _ h => h

theorem yields_from_stroke :
    Yields (fun t => From r p (.stroke t)) (Stroke.Setting.read? r p) := by
  unfold Stroke.Setting.read?
  split <;> first
    | exact yields_none
    | exact yields_map fun _ h => h
    | exact yields_map fun _ _ => trivial

theorem yields_from_filling :
    Yields (fun t => From r p (.filling t)) (Filling.Setting.read? r p) := by
  unfold Filling.Setting.read?
  split <;> first
    | exact yields_none
    | exact yields_map fun _ h => h
    | exact yields_map fun _ _ => trivial

theorem yields_from_double :
    Yields (fun t => From r p (.double t)) (DoubleLine.Setting.read? r p) := by
  unfold DoubleLine.Setting.read?
  split <;> first
    | exact yields_none
    | exact yields_map fun _ h => h
    | exact yields_map fun _ _ => trivial

theorem yields_from_shadow :
    Yields (fun t => From r p (.shadow t)) (Shadow.Setting.read? r p) := by
  unfold Shadow.Setting.read?
  split <;> first
    | exact yields_none
    | exact yields_map fun _ h => h
    | exact yields_map fun _ _ => trivial

theorem yields_from_arrows :
    Yields (fun t => From r p (.arrows t)) (Arrows.Setting.read? r p) := by
  unfold Arrows.Setting.read?
  split <;> first
    | exact yields_none
    | exact yields_map fun _ h => h
    | exact yields_map fun _ _ => trivial

theorem yields_from_dots : Yields (fun t => From r p (.dots t)) (Dots.Setting.read? r p) := by
  unfold Dots.Setting.read?
  split <;> first
    | exact yields_none
    | exact yields_map fun _ h => h
    | exact yields_map fun _ _ => trivial

theorem yields_from_grid :
    Yields (fun t => From r p (.grid t)) (GridStyle.Setting.read? r p) := by
  unfold GridStyle.Setting.read?
  split <;> first
    | exact yields_none
    | exact yields_map fun _ h => h
    | exact yields_map fun _ _ => trivial

theorem yields_from_axes :
    Yields (fun t => From r p (.axes t)) (AxesStyle.Setting.read? r p) := by
  unfold AxesStyle.Setting.read?
  split <;> first
    | exact yields_none
    | exact yields_map fun _ h => h
    | exact yields_map fun _ _ => trivial

theorem yields_from_alone : Yields (From r p) (readAlone? p) := by
  unfold readAlone?
  split <;> first
    | exact yields_none
    | exact yields_map fun y h => ⟨y, h, rfl⟩
    | exact yields_map fun _ _ => trivial

/-- Every setting that is read comes from the reader of its kind. -/
theorem from_of_read {s : Setting α} (h : read r p = .ok s) : s.From r p :=
  of_read h yields_from_scale yields_from_stroke yields_from_filling yields_from_double
    yields_from_shadow yields_from_arrows yields_from_dots yields_from_grid yields_from_axes
    (fun _ _ => trivial) yields_from_alone

end Setting

end PictureTree
