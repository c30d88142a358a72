/-
# `Proofs.Context.Numbers` — which numbers of a context are finite

Every number of a context is finite at the start, and a parameter whose value comes
to a number that is not is reported and changes nothing.  That holds of all but three
numbers, `Context.uncheckedNumbers`, which two parameters set:

    dash      two lengths, of which no check is made
    gangle    an angle that may overflow behind its check

`numbers_setEach` says what follows for a sequence of parameters: the others stay
finite whatever is set, all stay finite if none of the two overflows, and where one
does, it is taken and leaves an infinite number.
-/
import PictureTree.Proofs.Context.Ranges
import PictureTree.Proofs.Shape.Finiteness
import PictureTree.Proofs.Style.Amounts

open scoped PictureTree.Scalar

namespace PictureTree

/-! ## The numbers of a context -/

section Numbers

variable {α : Type}

def Units.numbers (u : Units α) : List α := [u.ppc, u.unit, u.xUnit, u.yUnit]

def Stroke.checkedNumbers (s : Stroke α) : List α := [s.thickness, s.dotSep, s.opacity]

def Filling.numbers (f : Filling α) : List α :=
  [f.opacity, f.gradient.angle, f.gradient.midPoint, f.hatching.angle, f.hatching.sep,
    f.hatching.width]

def DoubleLine.numbers (l : DoubleLine α) : List α := l.sep.toList

def Shadow.numbers (s : Shadow α) : List α := [s.angle, s.size]

def ArrowMeasures.numbers (m : ArrowMeasures α) : List α :=
  [m.size.1, m.size.2, m.length, m.inset, m.bar.1, m.bar.2, m.bracket, m.roundBracket, m.dot.1,
    m.dot.2]

def Dots.numbers (d : Dots α) : List α := [d.size.1, d.size.2, d.scale, d.angle]

def GridStyle.numbers (g : GridStyle α) : List α := [g.width, g.labelSize, g.subgridWidth]

def AxesStyle.numbers (a : AxesStyle α) : List α :=
  [a.ticksSize, a.origin.1, a.origin.2, a.increment.1, a.increment.2, a.distance.1, a.distance.2]

namespace Context

/-- The numbers of a context that are checked when they are set, or never set. -/
def checkedNumbers (c : Context α) : List α :=
  c.units.numbers ++ c.stroke.checkedNumbers ++ [c.frameArc] ++ c.filling.numbers ++
    c.double.numbers ++ c.shadow.numbers ++ c.arrows.measures.numbers ++ c.dots.numbers ++
    c.grid.numbers ++ c.axes.numbers ++ [c.placeAngle] ++ c.bounds.1.numbers ++ c.bounds.2.numbers

/-- The others: the lengths of dashes and the angle that shapes are turned by. -/
def uncheckedNumbers (c : Context α) : List α :=
  [c.stroke.dashBlack, c.stroke.dashWhite, c.shapeAngle]

/-- All numbers of a context, colours aside. -/
def numbers (c : Context α) : List α := c.checkedNumbers ++ c.uncheckedNumbers

end Context

namespace Setting

/-- The numbers of a setting that are checked when it is read. -/
def checkedNumbers : Setting α → List α
  | .scale (.unit x) | .scale (.xUnit x) | .scale (.yUnit x) | .stroke (.thickness x)
  | .stroke (.dotSep x) | .stroke (.opacity x) | .frameArc x | .filling (.opacity x)
  | .filling (.gradAngle x) | .filling (.gradMidPoint x) | .filling (.hatchAngle x)
  | .filling (.hatchSep x) | .filling (.hatchWidth x) | .double (.sep x) | .shadow (.angle x)
  | .shadow (.size x) | .arrows (.length x) | .arrows (.inset x) | .arrows (.bracket x)
  | .arrows (.roundBracket x) | .dots (.scale x) | .dots (.angle x) | .grid (.width x)
  | .grid (.labelSize x) | .grid (.subgridWidth x) | .axes (.ticksSize x) | .axes (.originX x)
  | .axes (.originY x) | .axes (.incrementX x) | .axes (.incrementY x) | .axes (.distanceX x)
  | .axes (.distanceY x) => [x]
  | .arrows (.size m) | .arrows (.bar m) | .dots (.size m) => [m.1, m.2]
  | _ => []

/-- The others. -/
def uncheckedNumbers : Setting α → List α
  | .stroke (.dash black white) => [black, white]
  | .shapeAngle x => [x]
  | _ => []

end Setting

namespace Context

variable [Scalar α]

/-- A value that comes to a number that is not finite, and that is taken. -/
def Overflows (c : Context α) (p : Param) : Prop :=
  NumberKind.Unseen α p ∧ ¬ AllFinite (NumberKind.amounts c.units p)

instance (c : Context α) (p : Param) : Decidable (c.Overflows p) :=
  inferInstanceAs (Decidable (NumberKind.Unseen α p ∧ ¬ AllFinite _))

/-- None of some parameters overflows where it is set. -/
def NeverOverflows (c : Context α) : List (Palette α × Param) → Prop
  | [] => True
  | (palette, p) :: calls => ¬ c.Overflows p ∧ (c.trySet palette p).NeverOverflows calls

end Context

end Numbers

variable {r : Reading Float} {p : Param} {c : Context Float} {ppc : Float}

/-! ## One setting -/

section Checked

theorem finite_one {x : Float} (h : Scalar.isFinite x = true) : AllFinite [x] := by
  simpa using h

theorem finite_two {m : Float × Float}
    (h : Scalar.isFinite m.1 = true ∧ Scalar.isFinite m.2 = true) : AllFinite [m.1, m.2] := by
  simpa using h

theorem finite_radians {x : Float} (h : Reading.angle p = .ok x) : AllFinite [x] := by
  obtain ⟨degrees, hdegrees, rfl⟩ := Reading.map_eq_ok.mp h
  exact finite_one (Double.isFinite_toRadians (Reading.isFinite_of_number hdegrees))

theorem Setting.finite_checkedNumbers {s : Setting Float} (h : s.From r p) :
    AllFinite s.checkedNumbers := by
  cases s with
  | scale t => cases t <;> exact finite_one (Reading.unitLength_checked h).1
  | stroke t =>
      cases t with
      | thickness | dotSep => exact finite_one (Reading.extent_checked h).1
      | opacity => exact finite_one (Reading.isFinite_of_number h)
      | _ => exact allFinite_nil
  | frameArc x =>
      obtain ⟨y, hy, rfl⟩ := h
      have hfinite := Reading.isFinite_of_number hy
      exact finite_one (Scalar.isFinite_clampUnit (by decide) hfinite)
  | filling t =>
      cases t with
      | opacity => exact finite_one (Reading.isFinite_of_number h)
      | gradMidPoint => exact finite_one (Reading.proportion_checked h).1
      | gradAngle | hatchAngle => exact finite_radians h
      | hatchSep | hatchWidth => exact finite_one (Reading.extent_checked h).1
      | _ => exact allFinite_nil
  | double t =>
      cases t with
      | sep => exact finite_one (Reading.extent_checked h).1
      | _ => exact allFinite_nil
  | shadow t =>
      cases t with
      | angle => exact finite_radians h
      | size => exact finite_one (Reading.isFinite_of_length h)
      | _ => exact allFinite_nil
  | arrows t =>
      cases t with
      | ends => exact allFinite_nil
      | size | bar => exact finite_two (Reading.sizeAndFactor_checked h)
      | _ => exact finite_one (Reading.isFinite_of_number h)
  | dots t =>
      cases t with
      | style => exact allFinite_nil
      | size => exact finite_two (Reading.sizeAndFactor_checked h)
      | scale => exact finite_one (Reading.isFinite_of_number h)
      | angle => exact finite_radians h
  | grid t =>
      cases t with
      | width | labelSize | subgridWidth => exact finite_one (Reading.extent_checked h).1
      | _ => exact allFinite_nil
  | axes t =>
      cases t with
      | figure | ticks | labels | ticksStyle | showOrigin => exact allFinite_nil
      | ticksSize => exact finite_one (Reading.isFinite_of_length h)
      | _ => exact finite_one (Reading.isFinite_of_number h)
  | showPoints | plotting | shapeAngle => exact allFinite_nil

/-- What is set unchecked is finite if it does not overflow. -/
theorem Setting.finite_uncheckedNumbers {s : Setting Float} (hread : Setting.read r p = .ok s)
    (hamounts : NumberKind.Unseen Float p → AllFinite (NumberKind.amounts r.units p)) :
    AllFinite s.uncheckedNumbers := by
  have hkey : s.key = p.key := Setting.key_of_read hread
  have hfrom : s.From r p := Setting.from_of_read hread
  cases s with
  | stroke t =>
      cases t with
      | dash black white =>
          have hfinite := hamounts (.inl hkey.symm)
          rw [NumberKind.amounts_dash hkey.symm] at hfinite
          obtain ⟨herror, -⟩ | ⟨x, y, xs, hok, hxs, hiff⟩ := NumberKind.twoExtents_cases r p
          · cases herror.symm.trans hfrom
          · cases hok.symm.trans hfrom
            rw [hxs] at hfinite
            exact hiff.mpr hfinite
      | _ => exact allFinite_nil
  | shapeAngle x =>
      obtain ⟨degrees, hdegrees, rfl⟩ := hfrom
      have hnumber := Reading.orInvalid_eq_ok.mp hdegrees
      have hfinite := hamounts (.inr ⟨hkey.symm, Option.isSome_of_eq_some hnumber⟩)
      rw [NumberKind.amounts_rotation hkey.symm hnumber] at hfinite
      exact (allFinite_cons.mp hfinite).2
  | _ => exact allFinite_nil

end Checked

section Put

theorem Units.finite_put {u : Units Float} {t : Units.Setting Float} (h : AllFinite u.numbers)
    (ht : AllFinite (Setting.checkedNumbers (.scale t))) : AllFinite (u.put t).numbers := by
  unfold Setting.checkedNumbers at ht
  cases t <;> simp_all [numbers, put]

theorem Stroke.finite_put {s : Stroke Float} {t : Stroke.Setting Float}
    (h : AllFinite s.checkedNumbers) (ht : AllFinite (Setting.checkedNumbers (.stroke t))) :
    AllFinite (s.put t).checkedNumbers := by
  unfold Setting.checkedNumbers at ht
  cases t with
  | opacity o =>
      rw [put_opacity]
      simp_all [checkedNumbers]
      split <;> simp_all
  | _ => simp_all [checkedNumbers, put]

theorem Filling.finite_put {f : Filling Float} {t : Filling.Setting Float}
    (h : AllFinite f.numbers) (ht : AllFinite (Setting.checkedNumbers (.filling t))) :
    AllFinite (f.put t).numbers := by
  unfold Setting.checkedNumbers at ht
  cases t with
  | opacity o =>
      rw [put_opacity]
      simp_all [numbers]
      split <;> simp_all
  | _ => simp_all [numbers, put]

theorem DoubleLine.finite_put {l : DoubleLine Float} {t : DoubleLine.Setting Float}
    (h : AllFinite l.numbers) (ht : AllFinite (Setting.checkedNumbers (.double t))) :
    AllFinite (l.put t).numbers := by
  cases t with
  | sep d => exact ht
  | _ => exact h

theorem Shadow.finite_put {s : Shadow Float} {t : Shadow.Setting Float} (h : AllFinite s.numbers)
    (ht : AllFinite (Setting.checkedNumbers (.shadow t))) : AllFinite (s.put t).numbers := by
  unfold Setting.checkedNumbers at ht
  cases t <;> simp_all [numbers, put]

theorem Arrows.finite_put {a : Arrows Float} {t : Arrows.Setting Float}
    (h : AllFinite a.measures.numbers) (ht : AllFinite (Setting.checkedNumbers (.arrows t))) :
    AllFinite (a.put t).measures.numbers := by
  unfold Setting.checkedNumbers at ht
  cases t <;> simp_all [ArrowMeasures.numbers, put]

theorem Dots.finite_put {d : Dots Float} {t : Dots.Setting Float} (h : AllFinite d.numbers)
    (ht : AllFinite (Setting.checkedNumbers (.dots t))) : AllFinite (d.put t).numbers := by
  unfold Setting.checkedNumbers at ht
  cases t <;> simp_all [numbers, put]

theorem GridStyle.finite_put {g : GridStyle Float} {t : GridStyle.Setting Float}
    (h : AllFinite g.numbers) (ht : AllFinite (Setting.checkedNumbers (.grid t))) :
    AllFinite (g.put t).numbers := by
  unfold Setting.checkedNumbers at ht
  cases t <;> simp_all [numbers, put]

theorem AxesStyle.finite_put {a : AxesStyle Float} {t : AxesStyle.Setting Float}
    (h : AllFinite a.numbers) (ht : AllFinite (Setting.checkedNumbers (.axes t))) :
    AllFinite (a.put t).numbers := by
  unfold Setting.checkedNumbers at ht
  cases t <;> simp_all [numbers, put]

end Put

namespace Context

/-- The checked numbers of a context are finite, part by part. -/
@[mk_iff] structure Checked (c : Context Float) : Prop where
  units : AllFinite c.units.numbers
  stroke : AllFinite c.stroke.checkedNumbers
  frameArc : AllFinite [c.frameArc]
  filling : AllFinite c.filling.numbers
  double : AllFinite c.double.numbers
  shadow : AllFinite c.shadow.numbers
  arrows : AllFinite c.arrows.measures.numbers
  dots : AllFinite c.dots.numbers
  grid : AllFinite c.grid.numbers
  axes : AllFinite c.axes.numbers
  placeAngle : AllFinite [c.placeAngle]
  low : AllFinite c.bounds.1.numbers
  high : AllFinite c.bounds.2.numbers

theorem allFinite_checkedNumbers : AllFinite c.checkedNumbers ↔ c.Checked := by
  simp only [checkedNumbers, allFinite_append, and_assoc, checked_iff]

theorem checked_put {s : Setting Float} (h : c.Checked) (hs : AllFinite s.checkedNumbers) :
    (c.put s).Checked := by
  cases s with
  | scale t => exact { h with units := Units.finite_put h.units hs }
  | stroke t => exact { h with stroke := Stroke.finite_put h.stroke hs }
  | frameArc x => exact { h with frameArc := hs }
  | filling t => exact { h with filling := Filling.finite_put h.filling hs }
  | double t => exact { h with double := DoubleLine.finite_put h.double hs }
  | shadow t => exact { h with shadow := Shadow.finite_put h.shadow hs }
  | arrows t => exact { h with arrows := Arrows.finite_put h.arrows hs }
  | dots t => exact { h with dots := Dots.finite_put h.dots hs }
  | grid t => exact { h with grid := GridStyle.finite_put h.grid hs }
  | axes t => exact { h with axes := AxesStyle.finite_put h.axes hs }
  | showPoints | plotting | shapeAngle => exact { h with }

theorem allFinite_uncheckedNumbers_put {s : Setting Float} (h : AllFinite c.uncheckedNumbers)
    (hs : AllFinite s.uncheckedNumbers) : AllFinite (c.put s).uncheckedNumbers := by
  cases s with
  | stroke t =>
      cases t with
      | opacity o =>
          rw [put, Stroke.put_opacity]
          exact h
      | dash black white => simp_all [uncheckedNumbers, Setting.uncheckedNumbers, put, Stroke.put]
      | _ => exact h
  | shapeAngle x => simp_all [uncheckedNumbers, Setting.uncheckedNumbers, put]
  | _ => exact h

/-- What is set unchecked is then found in the context. -/
theorem allFinite_of_put {s : Setting Float} (h : AllFinite (c.put s).uncheckedNumbers) :
    AllFinite s.uncheckedNumbers := by
  cases s with
  | stroke t =>
      cases t with
      | dash black white => simp_all [uncheckedNumbers, Setting.uncheckedNumbers, put, Stroke.put]
      | _ => exact allFinite_nil
  | shapeAngle x => simp_all [uncheckedNumbers, Setting.uncheckedNumbers, put]
  | _ => exact allFinite_nil

/-! ## At the start -/

theorem isFinite_points (hppc : IsUnit ppc) {n : Float}
    (hn : Double.isSmall (n * pointLength) = true) : Scalar.isFinite (points ppc n) = true :=
  (points_isExtent hn hppc).1

theorem checked_initial (hppc : IsUnit ppc) : (initial ppc).Checked := by
  constructor <;> simp only [initial, Units.ofPpc, Units.numbers, Stroke.checkedNumbers,
    Filling.numbers, DoubleLine.numbers, Shadow.numbers, ArrowMeasures.numbers, Dots.numbers,
    GridStyle.numbers, AxesStyle.numbers, Point.numbers, Option.toList_none, allFinite_cons,
    allFinite_nil, and_true]
  case units => exact ⟨hppc.1, by decide⟩
  case stroke =>
    exact ⟨isFinite_points hppc (by decide), isFinite_points hppc (by decide), by decide⟩
  case filling =>
    exact ⟨by decide, by decide, by decide, by decide, isFinite_points hppc (by decide),
      isFinite_points hppc (by decide)⟩
  case shadow => exact ⟨by decide, isFinite_points hppc (by decide)⟩
  case arrows =>
    exact ⟨isFinite_points hppc (by decide), by decide, by decide, by decide,
      isFinite_points hppc (by decide), by decide, by decide, by decide,
      isFinite_points hppc (by decide), by decide⟩
  case dots => exact ⟨isFinite_points hppc (by decide), by decide, by decide, by decide⟩
  case grid =>
    exact ⟨isFinite_points hppc (by decide), isFinite_points hppc (by decide),
      isFinite_points hppc (by decide)⟩
  case axes => exact ⟨isFinite_points hppc (by decide), by decide⟩
  case frameArc | placeAngle | low | high => decide

theorem allFinite_uncheckedNumbers_initial (hppc : IsUnit ppc) :
    AllFinite (initial ppc).uncheckedNumbers := by
  simp only [initial, uncheckedNumbers, allFinite_cons, allFinite_nil, and_true]
  exact ⟨isFinite_points hppc (by decide), isFinite_points hppc (by decide), by decide⟩

/-! ## Values that overflow -/

theorem exists_read_of_overflows (h : c.Overflows p) (palette : Palette Float) :
    ∃ s, Setting.read ⟨c.units, palette⟩ p = .ok s ∧ ¬ AllFinite s.uncheckedNumbers := by
  obtain ⟨key, value⟩ := p
  obtain ⟨(rfl : key = "dash") | ⟨(rfl : key = "gangle"), hsome⟩, hxs⟩ := h
  · rw [NumberKind.amounts_dash rfl] at hxs
    obtain ⟨-, hnone⟩ | ⟨x, y, xs, hok, hwords, hiff⟩ :=
      NumberKind.twoExtents_cases ⟨c.units, palette⟩ ⟨"dash", value⟩
    · rw [hnone] at hxs
      exact absurd allFinite_nil hxs
    · rw [hwords] at hxs
      refine ⟨.stroke (.dash x y), Setting.read_of_found ?_, mt hiff.mp hxs⟩
      exact congrArg (fun read => some ((Except.map _ read).map Setting.stroke)) hok
  · obtain ⟨degrees, hdegrees⟩ := Option.isSome_iff_exists.mp hsome
    have hnumber : Reading.number ⟨"gangle", value⟩ = .ok degrees :=
      Reading.orInvalid_eq_ok.mpr hdegrees
    rw [NumberKind.amounts_rotation rfl hdegrees] at hxs
    refine ⟨.shapeAngle (Scalar.rotation degrees), Setting.read_of_found ?_, fun h => hxs ?_⟩
    · exact congrArg (fun read => some (Except.map _ read)) hnumber
    · exact allFinite_cons.mpr ⟨(Option.filter_eq_some_iff.mp hdegrees).2, h⟩

/-- A value that overflows is taken, and leaves a number that is not finite. -/
theorem exists_set_of_overflows (h : c.Overflows p) (palette : Palette Float) :
    ∃ c', c.set palette p = .ok c' ∧ ¬ AllFinite c'.uncheckedNumbers := by
  obtain ⟨s, hread, hs⟩ := exists_read_of_overflows h palette
  refine ⟨c.put s, ?_, mt allFinite_of_put hs⟩
  rw [set, hread]
  rfl

/-- Any other value that comes to a number that is not finite is reported. -/
theorem set_of_not_overflows (hxs : ¬ AllFinite (NumberKind.amounts c.units p))
    (h : ¬ c.Overflows p) (palette : Palette Float) :
    c.set palette p = .error (.invalidValue p.key p.value) := by
  have hread := NumberKind.read_of_not_finite (r := ⟨c.units, palette⟩) hxs
    fun hseen => h ⟨hseen, hxs⟩
  rw [set, hread]
  rfl

/-! ## All settings -/

theorem checked_setEach (hppc : IsUnit ppc) (calls : List (Palette Float × Param)) :
    ((initial ppc).setEach calls).Checked :=
  setEach_keeps (P := Checked) (fun _ _ _ _ h hread =>
    checked_put h (Setting.finite_checkedNumbers (Setting.from_of_read hread)))
    (checked_initial hppc) calls

theorem allFinite_uncheckedNumbers_setEach (h : AllFinite c.uncheckedNumbers)
    {calls : List (Palette Float × Param)} (hcalls : c.NeverOverflows calls) :
    AllFinite (c.setEach calls).uncheckedNumbers := by
  induction calls generalizing c with
  | nil => exact h
  | cons call calls ih =>
      have hset : AllFinite (c.trySet call.1 call.2).uncheckedNumbers := by
        refine trySet_keeps (P := fun c => AllFinite c.uncheckedNumbers) h fun s hread => ?_
        refine allFinite_uncheckedNumbers_put h
          (Setting.finite_uncheckedNumbers hread fun hseen => ?_)
        exact not_not.mp fun hxs => hcalls.1 ⟨hseen, hxs⟩
      exact ih hset hcalls.2

/-- After any parameters with any palettes, the checked numbers are finite, and all
are if none of the parameters overflows.  A value that comes to a number that is not
finite is reported and changes nothing; but one that overflows is taken, and leaves
such a number. -/
theorem numbers_setEach (hppc : IsUnit ppc) (calls : List (Palette Float × Param))
    {c : Context Float} (hc : (initial ppc).setEach calls = c) :
    AllFinite c.checkedNumbers ∧ ((initial ppc).NeverOverflows calls → AllFinite c.numbers) ∧
    ∀ (palette : Palette Float) (p : Param), ¬ AllFinite (NumberKind.amounts c.units p) →
      (¬ c.Overflows p → c.set palette p = .error (.invalidValue p.key p.value) ∧
        c.trySet palette p = c) ∧
      (c.Overflows p → ∃ c', c.set palette p = .ok c' ∧ ¬ AllFinite c'.numbers) := by
  subst hc
  have hchecked := allFinite_checkedNumbers.mpr (checked_setEach hppc calls)
  refine ⟨hchecked, fun hcalls => ?_, fun palette p hxs => ⟨fun hseen => ?_, fun hseen => ?_⟩⟩
  · exact allFinite_append.mpr ⟨hchecked,
      allFinite_uncheckedNumbers_setEach (allFinite_uncheckedNumbers_initial hppc) hcalls⟩
  · have herror := set_of_not_overflows hxs hseen palette
    exact ⟨herror, by rw [trySet, herror]⟩
  · obtain ⟨c', hset, hinfinite⟩ := exists_set_of_overflows hseen palette
    exact ⟨c', hset, fun h => hinfinite (allFinite_append.mp h).2⟩

/-- A width and an angle, and a factor beyond the doubles behind them. -/
theorem numbers_setEach_width_and_angle :
    IsUnit (50 : Float) ∧ ∃ c : Context Float,
      (initial 50).setEach [(.predefined, ⟨"linewidth", "2mm"⟩), (⟨[]⟩, ⟨"gangle", "90"⟩)] = c ∧
      AllFinite c.numbers ∧
      c.set .predefined ⟨"arrowlength", "1e999"⟩
        = .error (.invalidValue "arrowlength" "1e999") := by
  have hppc : IsUnit (50 : Float) := ⟨by decide, by decide⟩
  obtain ⟨-, hnumbers, hset⟩ := numbers_setEach hppc
    [(.predefined, ⟨"linewidth", "2mm"⟩), (⟨[]⟩, ⟨"gangle", "90"⟩)] rfl
  refine ⟨hppc, _, rfl, hnumbers ⟨by decide, by decide, trivial⟩, ?_⟩
  exact ((hset .predefined ⟨"arrowlength", "1e999"⟩ (by decide)).1 (by decide)).1

/-- A length of dashes beyond the doubles is set, and so is an angle that is within them
in degrees but not when it is multiplied by π. -/
theorem dash_and_gangle_overflow :
    (((initial (1e300 : Float)).set .predefined ⟨"dash", "1000000000 1"⟩).toOption.map
        fun c => Scalar.isFinite c.stroke.dashBlack) = some false ∧
    (((initial (50 : Float)).set .predefined ⟨"gangle", "1e308"⟩).toOption.map
        fun c => Scalar.isFinite c.shapeAngle) = some false := by
  constructor <;> decide +kernel

end Context

end PictureTree
