/-
# `Proofs.Shape.Finiteness` — which numbers of a figure are checked

A shape command computes the numbers of its figures from finite coordinates and
arguments, and checks most of what it computes.  `Outline.numbers` are all
numbers that an outline is made of; `Outline.unchecked` are those that are
computed behind the last check:

    a rectangle     its sides, as differences of coordinates
    a triangle      its place and its sides
    an arc          its angles, in radians
    a curve         the first control point, a reflection
    a dot, a plot   the diameter of dots

The rotations of dots and of pictures are not checked either.

`finite_of_outlines?` says that these are all: if they are finite, so is every
number of the figure.  Nothing is assumed of the arithmetic but that its own
constants are finite; that a sum or a product of finite numbers is finite is
true of no arithmetic that rounds.
-/
import PictureTree.Proofs.Shape.Resolution

open scoped PictureTree.Scalar

namespace PictureTree

variable {α : Type}

/-! ## The numbers of a figure -/

/-- The numbers of some points. -/
def Point.numbersOfAll (ps : List (Point α)) : List α := ps.flatMap Point.numbers

/-- The numbers of a lattice. -/
def Lattice.numbers (l : Lattice α) : List α :=
  l.position.numbers ++ l.start.numbers ++ l.stop.numbers ++ [l.stepX, l.stepY]

namespace Outline

/-- All numbers that an outline is made of. -/
def numbers : Outline α → List α
  | .rectangle position width height rounding => position.numbers ++ [width, height, rounding]
  | .ellipse center rx ry => center.numbers ++ [rx, ry]
  | .rhombus center width height => center.numbers ++ [width, height]
  | .triangle position width height => position.numbers ++ [width, height]
  | .circle center radius => center.numbers ++ [radius]
  | .arc a => a.center.numbers ++ [a.radius, a.startAngle, a.endAngle]
  | .polygon points => Point.numbersOfAll points
  | .polyline points => Point.numbersOfAll points
  | .bezier b => Point.numbersOfAll b.points ++ Point.numbersOfAll b.controls
  | .dot position _ diameter _ _ => position.numbers ++ [diameter]
  | .grid l _ => l.numbers
  | .axes l _ => l.numbers
  | .plot p => p.position.numbers ++ [p.low, p.high, p.scaleX, p.scaleY, p.dotDiameter]
  | .freehand run => Point.numbersOfAll run.points
  | .text position _ _ => position.numbers
  | .picture position _ width height => position.numbers ++ [width, height]

/-- The numbers of an outline that no check has seen. -/
def unchecked : Outline α → List α
  | .rectangle _ width height _ => [width, height]
  | .triangle position width height => position.numbers ++ [width, height]
  | .arc a => [a.startAngle, a.endAngle]
  | .bezier b => Point.numbersOfAll (b.controls.take 1)
  | .dot _ _ diameter _ _ => [diameter]
  | .plot p => [p.dotDiameter]
  | _ => []

/-- Whether the rotation of a figure is given by its command. -/
def rotationGiven : Outline α → Bool
  | .dot .. | .picture .. => true
  | _ => false

end Outline

namespace Figure

/-- All numbers of the geometry of a figure. -/
def numbers (f : Figure α) : List α := f.outline.numbers ++ [f.rotation]

/-- The numbers of a figure that no check has seen. -/
def unchecked (f : Figure α) : List α :=
  f.outline.unchecked ++ if f.outline.rotationGiven then [f.rotation] else []

end Figure

variable [Scalar α]

/-- The constants that figures are made of where nothing else is given. -/
def constants : List α := [0, 1, Scalar.pi]

/-- A figure whose numbers are finite if those are that no check has seen. -/
def Figure.Checked (f : Figure α) : Prop := AllFinite f.unchecked → AllFinite f.numbers

/-! ## Finite numbers and points -/

@[simp] theorem allFinite_numbersOfAll {ps : List (Point α)} :
    AllFinite (Point.numbersOfAll ps) ↔ ∀ p ∈ ps, p.isFinite = true := by
  simp only [Point.numbersOfAll, AllFinite, List.mem_flatMap, forall_exists_index, and_imp]
  exact ⟨fun h p hp => allFinite_numbers.mp fun x hx => h x p hp hx,
    fun h x p hp => allFinite_numbers.mpr (h p hp) x⟩

theorem Scalar.isFinite_min {x y : α} (hx : Scalar.isFinite x = true)
    (hy : Scalar.isFinite y = true) : Scalar.isFinite (Scalar.min x y) = true := by
  unfold Scalar.min
  split
  · exact hy
  · split
    · exact hx
    · split <;> assumption

theorem Scalar.isFinite_max {x y : α} (hx : Scalar.isFinite x = true)
    (hy : Scalar.isFinite y = true) : Scalar.isFinite (Scalar.max x y) = true := by
  unfold Scalar.max
  split
  · exact hy
  · split
    · exact hx
    · split <;> assumption

theorem Scalar.isFinite_clampUnit (hc : AllFinite (constants : List α)) {x : α}
    (hx : Scalar.isFinite x = true) : Scalar.isFinite (Scalar.clampUnit x) = true := by
  simp only [constants, allFinite_cons] at hc
  unfold Scalar.clampUnit
  split
  · exact hc.1
  · split
    · exact hc.2.1
    · exact hx

namespace Point

theorem isFinite_iff {p : Point α} :
    p.isFinite = true ↔ Scalar.isFinite p.x = true ∧ Scalar.isFinite p.y = true := by
  rw [isFinite, Bool.and_eq_true]

theorem isFinite_origin (hc : AllFinite (constants : List α)) :
    (origin : Point α).isFinite = true :=
  isFinite_iff.mpr ⟨(allFinite_cons.mp hc).1, (allFinite_cons.mp hc).1⟩

theorem isFinite_min {p q : Point α} (hp : p.isFinite = true) (hq : q.isFinite = true) :
    (p.min q).isFinite = true := by
  rw [isFinite_iff] at *
  exact ⟨Scalar.isFinite_min hp.1 hq.1, Scalar.isFinite_min hp.2 hq.2⟩

theorem isFinite_of_ofCoords? {x y : α} {p : Point α}
    (h : (ofCoords? x y).toOption = some p) : p.isFinite = true := by
  rw [toOption_ofCoords, Option.ite_none_right_eq_some] at h
  exact Option.some.inj h.2 ▸ h.1

end Point

namespace Context

variable {c : Context α}

theorem isFinite_of_checked? {x y : α} (h : checked? x = some y) : Scalar.isFinite y = true := by
  rw [checked?_eq, Option.ite_none_right_eq_some] at h
  exact Option.some.inj h.2 ▸ h.1

theorem isFinite_of_point? {coord : Coord} {p : Point α} (h : c.point? coord = some p) :
    p.isFinite = true :=
  Point.isFinite_of_ofCoords? h

theorem isFinite_of_points? {coords : List Coord} {ps : List (Point α)}
    (h : c.points? coords = some ps) : ∀ p ∈ ps, p.isFinite = true := by
  rw [points?_eq, Option.ite_none_right_eq_some] at h
  obtain ⟨hfinite, hps⟩ := h
  intro p hp
  obtain ⟨coord, hcoord, rfl⟩ := List.mem_map.mp (Option.some.inj hps ▸ hp)
  exact List.all_eq_true.mp hfinite coord hcoord

theorem isFinite_of_firstPoint? (hc : AllFinite (constants : List α)) {coords : List Coord}
    {p : Point α} (h : c.firstPoint? coords = some p) : p.isFinite = true := by
  cases coords with
  | nil =>
      obtain rfl := Option.some.inj h
      exact Point.isFinite_origin hc
  | cons coord coords => exact isFinite_of_point? h

end Context

/-! ## Lattices and curves -/

theorem Lattice.finite_of_ofCoords? {c : Context α} {coords : List Coord} {l : Lattice α}
    (h : ofCoords? c coords = some l) : AllFinite l.numbers := by
  simp only [ofCoords?, bind, Option.bind_eq_some_iff, pure, Option.some.injEq] at h
  obtain ⟨corners, -, stepX, hstepX, stepY, hstepY, position, hposition, start, hstart, stop,
    hstop, rfl⟩ := h
  simp only [numbers, allFinite_append, allFinite_numbers, allFinite_cons, allFinite_nil, and_true]
  exact ⟨⟨⟨Point.isFinite_of_ofCoords? hposition, Point.isFinite_of_ofCoords? hstart⟩,
    Point.isFinite_of_ofCoords? hstop⟩, Context.isFinite_of_checked? hstepX,
    Context.isFinite_of_checked? hstepY⟩

namespace Bezier

omit [Scalar α] in
theorem mem_of_mem_triples {β : Type} {bs : List β} {t : β × β × β} (h : t ∈ triples bs) :
    t.1 ∈ bs ∧ t.2.1 ∈ bs ∧ t.2.2 ∈ bs := by
  fun_induction triples bs with
  | case1 a b c rest ih =>
      rcases List.mem_cons.mp h with rfl | h
      · simp
      · simp [ih h]
  | case2 => cases h

/-- Of the points of a path only the first control point is not one of the points
that its segments are given by. -/
theorem finite_of_ofSegments? {start : Point α} {segments : List (Point α × Point α × Point α)}
    {b : Bezier α} (h : ofSegments? start segments = some b) (hstart : start.isFinite = true)
    (hinto : ∀ s ∈ segments, s.2.1.isFinite = true) (hstop : ∀ s ∈ segments, s.2.2.isFinite = true)
    (hfirst : AllFinite (Point.numbersOfAll (b.controls.take 1))) :
    AllFinite (Point.numbersOfAll b.points ++ Point.numbersOfAll b.controls) := by
  have hincoming : ∀ p ∈ segments.map fun s => s.2.1, p.isFinite = true :=
    List.forall_mem_map.mpr hinto
  have hends : ∀ p ∈ segments.map fun s => s.2.2, p.isFinite = true :=
    List.forall_mem_map.mpr hstop
  cases segments with
  | nil => cases h
  | cons s more =>
      rw [ofSegments?] at h
      split at h
      · obtain rfl := Option.some.inj h
        simp only [allFinite_numbersOfAll, List.take_succ_cons, List.take_zero,
          List.forall_mem_singleton] at hfirst
        simp only [allFinite_append, allFinite_numbersOfAll, List.forall_mem_cons]
        exact ⟨⟨hstart, fun p hp => hends p (List.dropLast_subset _ hp)⟩, hfirst,
          fun p hp => hincoming p (List.dropLast_subset _ hp)⟩
      · obtain rfl := Option.some.inj h
        simp only [allFinite_numbersOfAll, List.take_succ_cons, List.take_zero,
          List.forall_mem_singleton] at hfirst
        simp only [allFinite_append, allFinite_numbersOfAll, List.forall_mem_cons]
        exact ⟨⟨hstart, hends⟩, hfirst, hincoming⟩

theorem finite_of_ofPoints? (hc : AllFinite (constants : List α)) {ps : List (Point α)}
    {b : Bezier α} (h : ofPoints? ps = some b) (hps : ∀ p ∈ ps, p.isFinite = true)
    (hfirst : AllFinite (Point.numbersOfAll (b.controls.take 1))) :
    AllFinite (Point.numbersOfAll b.points ++ Point.numbersOfAll b.controls) := by
  unfold ofPoints? at h
  split at h
  · exact finite_of_ofSegments? h (Point.isFinite_origin hc)
      (fun s hs => hps _ (mem_of_mem_triples hs).2.1) (fun s hs => hps _ (mem_of_mem_triples hs).2.2)
      hfirst
  · split at h
    · cases h
    · next start rest =>
        rw [List.forall_mem_cons] at hps
        exact finite_of_ofSegments? h hps.1 (fun s hs => hps.2 _ (mem_of_mem_triples hs).2.1)
          (fun s hs => hps.2 _ (mem_of_mem_triples hs).2.2) hfirst

end Bezier

/-! ## One lemma a command -/

namespace ShapeCommand

/-- What a command draws, with no number infinite or "not a number" but those
that no check has seen. -/
def Checked (ds : Drawn α) : Prop := ∀ d ∈ ds, (Figure.ofOutline d.1 d.2).Checked

section Commands

variable {c : Context α} {a : Arguments} {ds : Drawn α}

theorem checked_singleton {o : Outline α} {rotation : α}
    (hrotation : o.rotationGiven = false → Scalar.isFinite rotation = true)
    (h : AllFinite o.unchecked → AllFinite o.numbers) : Checked [(o, rotation)] := by
  refine List.forall_mem_singleton.mpr fun hu => ?_
  obtain ⟨houtline, hgiven⟩ := allFinite_append.mp hu
  refine allFinite_append.mpr ⟨h houtline, allFinite_cons.mpr ⟨?_, allFinite_nil⟩⟩
  cases ho : o.rotationGiven with
  | false => exact hrotation ho
  | true => exact (allFinite_cons.mp (if_pos ho ▸ hgiven)).1

theorem checked_only (hc : AllFinite (constants : List α)) {o : Outline α}
    (h : AllFinite o.unchecked → AllFinite o.numbers) : Checked (only o) :=
  checked_singleton (fun _ => (allFinite_cons.mp hc).1) h

variable (hc : AllFinite (constants : List α))
include hc

theorem checked_frame? (harc : Scalar.isFinite c.frameArc = true) (h : frame? c a = some ds) :
    Checked ds := by
  have hcorners : ∀ p q : Point α, p.isFinite = true → q.isFinite = true →
      Checked (only (.ofCorners p q c.frameArc)) := fun p q hp hq => checked_only hc fun hu => by
    simp only [Outline.ofCorners, Outline.unchecked, allFinite_cons] at hu
    simp only [Outline.ofCorners, Outline.numbers, allFinite_append, allFinite_numbers,
      allFinite_cons]
    exact ⟨Point.isFinite_min hp hq, hu.1, hu.2.1, harc, allFinite_nil⟩
  unfold frame? at h
  split at h
  · cases h
  · simp only [bind, Option.bind_eq_some_iff, pure, Option.some.injEq] at h
    obtain ⟨p, hp, rfl⟩ := h
    exact hcorners _ _ (Point.isFinite_origin hc) (Context.isFinite_of_point? hp)
  · simp only [bind, Option.bind_eq_some_iff, pure, Option.some.injEq] at h
    obtain ⟨p, hp, q, hq, rfl⟩ := h
    exact hcorners _ _ (Context.isFinite_of_point? hp) (Context.isFinite_of_point? hq)

theorem checked_diamond? (h : diamond? c a = some ds) : Checked ds := by
  simp only [diamond?, bind, Option.bind_eq_some_iff, pure, Option.some.injEq] at h
  obtain ⟨center, hcenter, width, hwidth, height, hheight, rfl⟩ := h
  exact checked_only hc fun _ => by
    simp [Outline.numbers, Context.isFinite_of_point? hcenter, Context.isFinite_of_checked? hwidth,
      Context.isFinite_of_checked? hheight]

theorem checked_triangle? (h : triangle? c a = some ds) : Checked ds := by
  simp only [triangle?, bind, Option.bind_eq_some_iff, pure, Option.some.injEq] at h
  obtain ⟨base, -, width, -, height, -, rfl⟩ := h
  simp only [constants, allFinite_cons] at hc
  unfold Outline.ofBase
  dsimp only
  split
  · exact checked_singleton (fun _ => hc.1) id
  · exact checked_singleton (fun _ => hc.2.2.1) id

theorem checked_ellipse? (h : ellipse? c a = some ds) : Checked ds := by
  simp only [ellipse?, bind, Option.bind_eq_some_iff, pure, Option.some.injEq] at h
  obtain ⟨center, hcenter, rx, hrx, ry, hry, rfl⟩ := h
  exact checked_only hc fun _ => by
    simp [Outline.numbers, Context.isFinite_of_point? hcenter, Context.isFinite_of_checked? hrx,
      Context.isFinite_of_checked? hry]

omit hc in
theorem isFinite_of_radius? {r : α} (h : radius? c a = some r) : Scalar.isFinite r = true := by
  simp only [radius?, bind, Option.bind_eq_some_iff] at h
  obtain ⟨q, -, hr⟩ := h
  exact Context.isFinite_of_checked? hr

theorem checked_circle? (h : circle? c a = some ds) : Checked ds := by
  simp only [circle?, bind, Option.bind_eq_some_iff, pure, Option.some.injEq] at h
  obtain ⟨center, hcenter, radius, hradius, rfl⟩ := h
  exact checked_only hc fun _ => by
    simp [Outline.numbers, Context.isFinite_of_firstPoint? hc hcenter, isFinite_of_radius? hradius]

theorem checked_arc? {style : ArcStyle} (h : arc? c a style = some ds) : Checked ds := by
  simp only [arc?, bind, Option.bind_eq_some_iff, pure, Option.some.injEq] at h
  obtain ⟨center, hcenter, radius, hradius, start, -, stop, -, rfl⟩ := h
  exact checked_only hc fun hu => by
    simp only [Outline.unchecked, allFinite_cons] at hu
    simp [Outline.numbers, Context.isFinite_of_firstPoint? hc hcenter, isFinite_of_radius? hradius,
      hu]

theorem checked_line? (h : line? c a = some ds) : Checked ds := by
  simp only [line?, bind, Option.bind_eq_some_iff] at h
  obtain ⟨ps, hps, h⟩ := h
  have hfinite := Context.isFinite_of_points? hps
  split at h
  · obtain rfl := Option.some.inj h
    exact checked_only hc fun _ => by
      simpa [Outline.numbers, Point.isFinite_origin hc] using hfinite
  · obtain rfl := Option.some.inj h
    exact checked_only hc fun _ => by simpa [Outline.numbers] using hfinite

theorem checked_segment? (h : segment? c a = some ds) : Checked ds := by
  simp only [segment?, bind, Option.bind_eq_some_iff, pure, Option.some.injEq] at h
  obtain ⟨ps, hps, rfl⟩ := h
  exact checked_only hc fun _ => allFinite_numbersOfAll.mpr (Context.isFinite_of_points? hps)

theorem checked_polygon? (h : polygon? c a = some ds) : Checked ds := by
  simp only [polygon?, bind, Option.bind_eq_some_iff] at h
  obtain ⟨ps, hps, h⟩ := h
  have hfinite := Context.isFinite_of_points? hps
  split at h
  · cases h
  · cases h
  · obtain rfl := Option.some.inj h
    exact checked_only hc fun _ => by
      simpa [Outline.numbers, Point.isFinite_origin hc] using hfinite
  · obtain rfl := Option.some.inj h
    exact checked_only hc fun _ => by simpa [Outline.numbers] using hfinite

theorem checked_bezier? (h : bezier? c a = some ds) : Checked ds := by
  simp only [bezier?, bind, Option.bind_eq_some_iff, pure, Option.some.injEq] at h
  obtain ⟨ps, hps, b, hb, rfl⟩ := h
  exact checked_only hc (Bezier.finite_of_ofPoints? hc hb (Context.isFinite_of_points? hps))

omit hc in
theorem checked_mark {p : Point α} (hp : p.isFinite = true) :
    (Figure.ofOutline (mark c p).1 (mark c p).2).Checked := by
  have hmark : Checked [mark c p] := checked_singleton (fun h => by cases h) fun hu =>
    allFinite_append.mpr ⟨allFinite_numbers.mpr hp, hu⟩
  exact hmark _ List.mem_cons_self

theorem checked_dot? (h : dot? c a = some ds) : Checked ds := by
  simp only [dot?, bind, Option.bind_eq_some_iff, pure, Option.some.injEq] at h
  obtain ⟨p, hp, rfl⟩ := h
  exact List.forall_mem_singleton.mpr (checked_mark (Context.isFinite_of_firstPoint? hc hp))

omit hc in
theorem checked_dots? (h : dots? c a = some ds) : Checked ds := by
  simp only [dots?, bind, Option.bind_eq_some_iff, pure, Option.some.injEq] at h
  obtain ⟨ps, hps, rfl⟩ := h
  exact List.forall_mem_map.mpr fun p hp => checked_mark (Context.isFinite_of_points? hps p hp)

theorem checked_grid? (h : grid? c a = some ds) : Checked ds := by
  simp only [grid?, bind, Option.bind_eq_some_iff, pure, Option.some.injEq] at h
  obtain ⟨l, hl, rfl⟩ := h
  exact checked_only hc fun _ => Lattice.finite_of_ofCoords? hl

theorem checked_axes? (h : axes? c a = some ds) : Checked ds := by
  simp only [axes?, bind, Option.bind_eq_some_iff, pure, Option.some.injEq] at h
  obtain ⟨l, hl, rfl⟩ := h
  exact checked_only hc fun _ => Lattice.finite_of_ofCoords? hl

theorem checked_plot? {function : String} (h : plot? c a function = some ds) : Checked ds := by
  simp only [plot?, bind, Option.bind_eq_some_iff, pure, Option.some.injEq] at h
  obtain ⟨p, -, x, hx, q, -, y, hy, stepX, hstepX, stepY, hstepY, rfl⟩ := h
  have hfx := Context.isFinite_of_checked? hx
  have hfy := Context.isFinite_of_checked? hy
  exact checked_only hc fun hu => by
    simp only [Outline.unchecked, allFinite_cons] at hu
    simp [Outline.numbers, Point.isFinite_origin hc, Scalar.isFinite_min hfx hfy,
      Scalar.isFinite_max hfx hfy, Context.isFinite_of_checked? hstepX,
      Context.isFinite_of_checked? hstepY, hu.1]

omit [Scalar α] hc in
theorem mem_of_mem_passed {kind : CurveKind} {ps : List (Point α)} {p : Point α}
    (h : p ∈ passed kind ps) : p ∈ ps := by
  unfold passed at h
  split at h
  · exact List.mem_cons_of_mem _ (List.dropLast_subset _ h)
  · exact h

theorem checked_curve? {kind : CurveKind} (h : curve? c a kind = some ds) : Checked ds := by
  simp only [curve?, bind, Option.bind_eq_some_iff] at h
  obtain ⟨ps, hps, h⟩ := h
  split at h
  · cases h
  · cases h
  · obtain rfl := Option.some.inj h
    exact checked_only hc fun _ => allFinite_numbersOfAll.mpr fun p hp =>
      Context.isFinite_of_points? hps p (mem_of_mem_passed hp)

/-- The unchecked numbers of what a command draws are the only ones that can be
infinite or "not a number". -/
theorem checked_of_outlines? {command : ShapeCommand} (harc : Scalar.isFinite c.frameArc = true)
    (h : command.outlines? c a = some ds) : Checked ds := by
  cases command with
  | frame => exact checked_frame? hc harc h
  | diamond => exact checked_diamond? hc h
  | triangle => exact checked_triangle? hc h
  | ellipse => exact checked_ellipse? hc h
  | circle | disk => exact checked_circle? hc h
  | wedge | arc clockwise => exact checked_arc? hc h
  | line => exact checked_line? hc h
  | segment => exact checked_segment? hc h
  | polygon => exact checked_polygon? hc h
  | bezier => exact checked_bezier? hc h
  | dot => exact checked_dot? hc h
  | dots => exact checked_dots? h
  | grid => exact checked_grid? hc h
  | axes => exact checked_axes? hc h
  | plot function => exact checked_plot? hc h
  | curve kind => exact checked_curve? hc h

end Commands

end ShapeCommand

end PictureTree
