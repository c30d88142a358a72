/-
# `Proofs.Shape.Corners` — the corners of a grid, and points

Coordinates are resolved in two ways.  A point is measured in pixels at once.  A grid
counts its corners in steps, relative to its origin, and is drawn with the size of a step;
so a corner is divided by the unit of each axis and multiplied by it again.

For Cartesian coordinates this comes to the same.  A polar one has a radius without a
direction, which a point measures in the common unit, and a grid in steps of the
horizontal axis.  So a grid has its corners where the points are, stretched along both
axes (`Units.stretch`):

    coordinate                     horizontally    vertically
    Cartesian                      1               1
    polar, radius without a unit   xUnit           yUnit
    polar, radius with a unit      1               yUnit / xUnit

A corner is at its point if it has no extent along any axis where it is stretched
(`Units.Agrees`).
-/
import PictureTree.Proofs.Shape.Motion
import PictureTree.Proofs.Shape.Resolution

namespace PictureTree

variable {α : Type} [ExactScalar α]

/-! ## Corners as points -/

namespace Units

/-- Units of a positive length. -/
structure Positive (u : Units α) : Prop where
  ppc : 0 < u.ppc
  unit : 0 < u.unit
  xUnit : 0 < u.xUnit
  yUnit : 0 < u.yUnit

/-- How much farther out a grid has a coordinate than a point, along each axis. -/
def stretch (u : Units α) : Coord → α × α
  | .cartesian .. => (1, 1)
  | .polar radius _ => if radius.unit.isSome then (1, u.yUnit / u.xUnit) else (u.xUnit, u.yUnit)

/-- The place of a coordinate in a grid, by its point. -/
def stretched (u : Units α) (q : Coord) (p : Point α) : Point α :=
  ⟨(u.stretch q).1 * p.x, (u.stretch q).2 * p.y⟩

/-- A coordinate that is not stretched along an axis, unless there is nothing to stretch. -/
def Agrees (u : Units α) (q : Coord) : Prop :=
  ((u.stretch q).1 = 1 ∨ (u.offset q).x = 0) ∧ ((u.stretch q).2 = 1 ∨ (u.offset q).y = 0)

/-- The point of model space that a coordinate in grid steps stands for. -/
def latticePoint (u : Units α) (q : Coord) : Point α :=
  ⟨(u.gridPoint q).x * u.stepX, -((u.gridPoint q).y * u.stepY)⟩

variable {u : Units α}

/-- A length along an axis does not depend on the steps that it is counted in. -/
theorem inSteps_mul {scale : α} (h : 0 < scale) (q : Quantity) (ppc : α) :
    inSteps q scale * (scale * ppc) = q.centimetres scale * ppc := by
  have hne : scale ≠ 0 := h.ne'
  cases hunit : q.unit with
  | none =>
      simp only [inSteps, Quantity.centimetres, hunit]
      ring
  | some unit =>
      simp only [inSteps, Quantity.centimetres, hunit]
      field_simp

/-- A radius in steps of the horizontal axis, by its length. -/
theorem gridX_mul (h : u.Positive) (radius angle : Quantity) :
    u.gridX radius * u.stepX = (u.stretch (.polar radius angle)).1 * u.length radius ∧
    u.gridX radius * u.stepY = (u.stretch (.polar radius angle)).2 * u.length radius := by
  have hunit : u.unit ≠ 0 := h.unit.ne'
  have hxUnit : u.xUnit ≠ 0 := h.xUnit.ne'
  cases hradius : radius.unit with
  | none =>
      simp only [gridX, inSteps, stepX, stepY, length, stretch, Quantity.centimetres, hradius,
        Option.isSome_none, Bool.false_eq_true, if_false]
      constructor <;> ring
  | some unit =>
      simp only [gridX, inSteps, stepX, stepY, length, stretch, Quantity.centimetres, hradius,
        Option.isSome_some, if_true]
      constructor <;> field_simp

/-- A grid has a coordinate at its point, stretched. -/
theorem latticePoint_eq (h : u.Positive) (q : Coord) :
    u.latticePoint q = u.stretched q ⟨(u.offset q).x, -(u.offset q).y⟩ := by
  cases q with
  | cartesian x y =>
      have hx : u.gridX x * u.stepX = u.x x := inSteps_mul (mul_pos h.unit h.xUnit) x u.ppc
      have hy : u.gridY y * u.stepY = u.y y := inSteps_mul (mul_pos h.unit h.yUnit) y u.ppc
      simp only [latticePoint, stretched, stretch, gridPoint, offset, hx, hy, one_mul]
  | polar radius angle =>
      obtain ⟨hx, hy⟩ := gridX_mul h radius angle
      simp only [latticePoint, stretched, gridPoint, offset, polar]
      ext
      · linear_combination Scalar.cos (Scalar.toRadians (angle.value : α)) * hx
      · linear_combination -Scalar.sin (Scalar.toRadians (angle.value : α)) * hy

theorem stretched_eq_iff (q : Coord) :
    let p : Point α := ⟨(u.offset q).x, -(u.offset q).y⟩
    u.stretched q p = p ↔ u.Agrees q := by
  intro p
  simp only [p, stretched, Agrees, Point.ext_iff, mul_left_eq_self₀, neg_eq_zero]

/-- A horizontal unit of two centimetres, where the others are of one. -/
theorem positive_doubled : (⟨50, 1, 2, 1⟩ : Units ℝ).Positive :=
  ⟨by norm_num, by norm_num, by norm_num, by norm_num⟩

end Units

/-! ## Grids and points -/

/-- The lattice of a grid or of axes. -/
def Outline.lattice? : Outline α → Option (Lattice α)
  | .grid l _ | .axes l _ => some l
  | _ => none

/-- Origin, start and end of a grid that is given by coordinates: a single one is its end,
and two are its start, which is also its origin, and its end. -/
def Lattice.corners? : List Coord → Option (Coord × Coord × Coord)
  | [] => none
  | [stop] => some (.origin, .origin, stop)
  | [start, stop] => some (start, start, stop)
  | origin :: start :: stop :: _ => some (origin, start, stop)

namespace Context

variable (c : Context α)

theorem point?_eq_some (q : Coord) : c.point? q = some (c.place q) :=
  (c.point?_eq q).trans (if_pos rfl)

theorem gridPoints?_eq_some (qs : List Coord) :
    qs.mapM c.gridPoint? = some (qs.map c.units.gridPoint) := by
  have hall : qs.all (fun q => (c.units.gridPoint q).isFinite) = true :=
    List.all_eq_true.mpr fun _ _ => rfl
  rw [gridPoints?_eq, if_pos hall]

end Context

namespace Lattice

/-- The span of a grid that is given by coordinates is that of its corners. -/
theorem span_map {qs : List Coord} {o s e : Coord} (h : corners? qs = some (o, s, e))
    (u : Units α) (bounds : Point α × Point α) :
    span bounds (qs.map u.gridPoint) = (u.gridPoint o, u.gridPoint s, u.gridPoint e) := by
  match qs with
  | [] => cases h
  | [_] | [_, _] | _ :: _ :: _ :: _ =>
      cases h
      rfl

/-- A grid that is given by coordinates has its corners where they are. -/
theorem exists_ofCoords? {qs : List Coord} {o s e : Coord} (h : corners? qs = some (o, s, e))
    (c : Context α) :
    ∃ l, ofCoords? c qs = some l ∧ l.position = c.units.latticePoint o ∧
      l.pointAt l.start.x l.start.y = c.units.latticePoint s ∧
      l.pointAt l.stop.x l.stop.y = c.units.latticePoint e := by
  have hl : ofCoords? c qs = some
      { position := ⟨(c.units.gridPoint o).x * c.units.stepX,
          -(c.units.gridPoint o).y * c.units.stepY⟩
        start := c.units.gridPoint s - c.units.gridPoint o
        stop := c.units.gridPoint e - c.units.gridPoint o
        stepX := c.units.stepX
        stepY := c.units.stepY } := by
    rw [ofCoords?, c.gridPoints?_eq_some, Option.bind_eq_bind, Option.bind_some, span_map h]
    rfl
  refine ⟨_, hl, ?_, ?_, ?_⟩ <;>
    simp only [pointAt, Units.latticePoint, Point.translate, Point.sub_def] <;> ext <;> ring

end Lattice

namespace ShapeCommand

/-- A figure keeps the outline that its command draws, unless that is a reversed arc. -/
theorem outline_finish {command : ShapeCommand} (h : command ≠ .arc true) (c : Context α)
    (a : Arguments) (o : Outline α × α) : (finish command c a o).outline = o.1 := by
  rw [finish, Figure.turnBy_eq]
  · rfl
  · exact h

/-- In exact arithmetic a dot is always drawn, at the point of its coordinate. -/
theorem exists_figures?_dot (c : Context α) (palette : Palette α) (a : Arguments) (q : Coord) :
    ∃ f : Figure α, ShapeCommand.dot.figures? c palette { a with coords := [q] } = some [f] ∧
      f.outline.kind = .dot ∧ f.center = (context c palette a).place q := by
  let c' := context c palette a
  let f := finish .dot c' { a with coords := [q] } (mark c' (c'.place q))
  have houtline : f.outline = (mark c' (c'.place q)).1 := outline_finish (by decide) ..
  refine ⟨f, ?_, ?_, ?_⟩
  · show (dot? c' { a with coords := [q] }).map _ = _
    rw [dot?, Context.firstPoint?, Context.point?_eq_some]
    rfl
  · rw [houtline]
    rfl
  · rw [Figure.center, houtline]
    rfl

/-- In exact arithmetic a grid with coordinates is always drawn, with its lattice. -/
theorem exists_figures?_lattice {command : ShapeCommand}
    (hcommand : command = .grid ∨ command = .axes) {c : Context α} {palette : Palette α}
    {a : Arguments} {l : Lattice α}
    (h : Lattice.ofCoords? (context c palette a) a.coords = some l) :
    ∃ f : Figure α, command.figures? c palette a = some [f] ∧ f.outline.lattice? = some l := by
  obtain rfl | rfl := hcommand
  · refine ⟨_, by rw [figures?, outlines?, grid?, h]; rfl, ?_⟩
    rw [outline_finish (by decide)]
    rfl
  · refine ⟨_, by rw [figures?, outlines?, axes?, h]; rfl, ?_⟩
    rw [outline_finish (by decide)]
    rfl

/-- A grid or axes with coordinates has its origin, its start and its end where the dots at
these coordinates are, each stretched by the units of the axes; and they are at the dots
themselves just where there is nothing to stretch. -/
theorem figures?_corners {command : ShapeCommand} {a : Arguments} {o s e : Coord}
    (hcommand : command = .grid ∨ command = .axes)
    (hcorners : Lattice.corners? a.coords = some (o, s, e))
    (c : Context α) (palette : Palette α) (hunits : (context c palette a).units.Positive) :
    let u := (context c palette a).units
    ∃ (f : Figure α) (l : Lattice α) (dot : Coord → Figure α),
      command.figures? c palette a = some [f] ∧ f.outline.lattice? = some l ∧
      (∀ q, ShapeCommand.dot.figures? c palette { a with coords := [q] } = some [dot q] ∧
        (dot q).outline.kind = .dot) ∧
      l.position = u.stretched o (dot o).center ∧
      l.pointAt l.start.x l.start.y = u.stretched s (dot s).center ∧
      l.pointAt l.stop.x l.stop.y = u.stretched e (dot e).center ∧
      ∀ q, u.stretched q (dot q).center = (dot q).center ↔ u.Agrees q := by
  intro u
  obtain ⟨l, hl, hposition, hstart, hstop⟩ :=
    Lattice.exists_ofCoords? hcorners (context c palette a)
  obtain ⟨f, hf, hlattice⟩ := exists_figures?_lattice hcommand hl
  choose dot hdot hkind hcenter using exists_figures?_dot c palette a
  have hplace (q : Coord) : u.latticePoint q = u.stretched q (dot q).center := by
    rw [hcenter]
    exact Units.latticePoint_eq hunits q
  refine ⟨f, l, dot, hf, hlattice, fun q => ⟨hdot q, hkind q⟩, hposition.trans (hplace o),
    hstart.trans (hplace s), hstop.trans (hplace e), fun q => ?_⟩
  rw [hcenter]
  exact Units.stretched_eq_iff q

/-- Axes with a doubled horizontal unit are at the dots of their Cartesian coordinates, with
and without a unit. -/
theorem figures?_corners_cartesian :
    let c : Context ℝ := { Context.initial 50 with units := ⟨50, 1, 2, 1⟩ }
    let o := Coord.cartesian ⟨.ofNat 2, none⟩ ⟨.ofNat 1, none⟩
    let s := Coord.cartesian ⟨.ofNat 1, some .cm⟩ .zero
    let e := Coord.cartesian ⟨.ofNat 3, none⟩ ⟨.ofNat 5, some .mm⟩
    let a : Arguments := ⟨false, [], none, [o, s, e], []⟩
    Lattice.corners? a.coords = some (o, s, e) ∧ (context c .predefined a).units.Positive ∧
    ∃ (f : Figure ℝ) (l : Lattice ℝ) (dot : Coord → Figure ℝ),
      axes.figures? c .predefined a = some [f] ∧ f.outline.lattice? = some l ∧
      (∀ q, ShapeCommand.dot.figures? c .predefined { a with coords := [q] } = some [dot q]) ∧
      l.position = (dot o).center ∧
      l.pointAt l.start.x l.start.y = (dot s).center ∧
      l.pointAt l.stop.x l.stop.y = (dot e).center := by
  intro c o s e a
  have hunits : (context c .predefined a).units.Positive := Units.positive_doubled
  obtain ⟨f, l, dot, hf, hl, hdot, hposition, hstart, hstop, hagrees⟩ :=
    figures?_corners (Or.inr rfl) (rfl : Lattice.corners? a.coords = some (o, s, e)) c .predefined
      hunits
  have hcartesian (x y : Quantity) : (context c .predefined a).units.Agrees (.cartesian x y) :=
    ⟨Or.inl rfl, Or.inl rfl⟩
  exact ⟨rfl, hunits, f, l, dot, hf, hl, fun q => (hdot q).1,
    hposition.trans ((hagrees o).mpr (hcartesian ..)),
    hstart.trans ((hagrees s).mpr (hcartesian ..)), hstop.trans ((hagrees e).mpr (hcartesian ..))⟩

/-- A grid with a doubled horizontal unit and a polar end ends twice as far out as the dot at
the same coordinate. -/
theorem polar_corner_off_dot :
    let c : Context ℝ := { Context.initial 50 with units := ⟨50, 1, 2, 1⟩ }
    let a : Arguments := ⟨false, [], none, [.polar ⟨.ofNat 1, none⟩ .zero], []⟩
    ∃ (f dot : Figure ℝ) (l : Lattice ℝ),
      grid.figures? c .predefined a = some [f] ∧ f.outline.lattice? = some l ∧
      ShapeCommand.dot.figures? c .predefined a = some [dot] ∧
      l.pointAt l.stop.x l.stop.y = ⟨100, 0⟩ ∧ dot.center = ⟨50, 0⟩ := by
  intro c a
  let q := Coord.polar ⟨.ofNat 1, none⟩ .zero
  let u := (context c .predefined a).units
  have hoffset : u.offset q = ⟨50, 0⟩ := by
    have hone : (Scalar.ofNumeral (.ofNat 1) : ℝ) = (1 : Nat) := ExactScalar.literal_eq 1
    have hzero : (Scalar.ofNumeral .zero : ℝ) = (0 : Nat) := ExactScalar.literal_eq 0
    have hangle : (Scalar.toRadians (Quantity.zero.value : ℝ) : ℝ) = 0 := by
      rw [Scalar.toRadians, Quantity.value, Quantity.zero, hzero, Nat.cast_zero, zero_mul]
    have hlength : u.length ⟨.ofNat 1, none⟩ = 50 := by
      show (Scalar.ofNumeral (.ofNat 1) : ℝ) * 1 * 50 = 50
      norm_num [hone]
    show (⟨u.length ⟨.ofNat 1, none⟩ * Real.cos _, u.length ⟨.ofNat 1, none⟩ * Real.sin _⟩ :
      Point ℝ) = _
    rw [hlength, hangle, Real.cos_zero, Real.sin_zero, mul_one, mul_zero]
  obtain ⟨l, hl, -, -, hstop⟩ := Lattice.exists_ofCoords?
    (rfl : Lattice.corners? a.coords = some (.origin, .origin, q)) (context c .predefined a)
  obtain ⟨f, hf, hlattice⟩ := exists_figures?_lattice (Or.inl rfl) hl
  obtain ⟨dot, hdot, -, hcenter⟩ := exists_figures?_dot c .predefined a q
  refine ⟨f, dot, l, hf, hlattice, hdot, ?_, ?_⟩
  · have hcorner : u.latticePoint q = ⟨2 * (u.offset q).x, 1 * -(u.offset q).y⟩ :=
      Units.latticePoint_eq Units.positive_doubled q
    rw [hoffset] at hcorner
    norm_num at hcorner
    exact hstop.trans hcorner
  · rw [hcenter, Context.place, hoffset, neg_zero]

end ShapeCommand

end PictureTree
