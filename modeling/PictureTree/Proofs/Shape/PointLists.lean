/-
# `Proofs.Shape.PointLists` — figures with enough points

Figures that are given by their points need some of them to be drawn at all.  A source may
be short of points, and each command has its own answer to that:

    \psline          a single point is reached from the origin
    \pspolygon       the origin is the third of two points; with one nothing is drawn
    \psbezier        the origin is the start if it is missing; without a segment nothing is drawn
    \pscurve         with fewer than two points nothing is drawn, the dropped ends not counted
    \pscustom        a segment starts where the cursor is, so no run has a single point

`Outline.WellFormed` is what they have in common.  It is said of the lengths of point lists,
so a figure that is moved, turned or dressed keeps it, and it holds of everything that a
command draws (`ShapeCommand.wellFormed_outlines?`) and of every run of a path
(`Path.two_le_length_runs`).
-/
import PictureTree.Proofs.Document.Coordinates
import PictureTree.Proofs.Shape.Kinds
import PictureTree.Proofs.Shape.Motion

open scoped PictureTree.Scalar

namespace PictureTree

variable {α : Type}

/-- A figure that is given by points has enough of them, and a plot has enough steps. -/
def Outline.WellFormed : Outline α → Prop
  | .polyline points => 2 ≤ points.length
  | .polygon points => 3 ≤ points.length
  | .freehand run => 2 ≤ run.points.length
  | .bezier b => 1 ≤ b.points.length ∧ b.controls.length = b.points.length
  | .plot p => 2 ≤ p.points
  | _ => True

/-- The kinds of figures that are given by points, or by a number of them. -/
def FigureKind.hasPointList : FigureKind → Bool
  | .polyline | .polygon | .freehand | .bezier | .plot => true
  | _ => false

theorem Outline.wellFormed_of_kind {o : Outline α} (h : o.kind.hasPointList = false) :
    o.WellFormed := by
  cases o with
  | polyline | polygon | freehand | bezier | plot => cases h
  | _ => trivial

/-! ## Runs of a path -/

/-- A run begins with the two ends of a segment and gets longer only. -/
theorem PathStep.two_le_length_runsFrom {current : Option (PathRun α)}
    (hcurrent : ∀ run ∈ current, 2 ≤ run.points.length) (steps : List (PathStep α)) :
    ∀ run ∈ runsFrom current steps, 2 ≤ run.points.length := by
  have hnone : ∀ run ∈ (none : Option (PathRun α)), 2 ≤ run.points.length := by simp
  fun_induction runsFrom current steps with
  | case1 current => simpa using hcurrent
  | case2 current steps ih =>
      exact List.forall_mem_append.mpr ⟨by simpa using hcurrent, ih hnone⟩
  | case3 current steps ih =>
      refine List.forall_mem_append.mpr ⟨?_, ih hnone⟩
      simpa [PathRun.closed] using hcurrent
  | case4 kind start target steps ih =>
      refine ih ?_
      rintro run ⟨⟩
      exact le_rfl
  | case5 start target steps run ih =>
      refine ih ?_
      rintro extended ⟨⟩
      have hrun := hcurrent run rfl
      rw [PathRun.extend, List.length_append]
      exact Nat.le_add_right_of_le hrun
  | case6 kind start target steps run hkind ih =>
      refine List.forall_mem_cons.mpr ⟨hcurrent run rfl, ih ?_⟩
      rintro run ⟨⟩
      exact le_rfl

theorem Path.two_le_length_runs (path : Path α) : ∀ run ∈ path.runs, 2 ≤ run.points.length :=
  PathStep.two_le_length_runsFrom (by simp) path.steps

variable [Scalar α]

/-! ## What keeps a figure well formed -/

theorem Outline.wellFormed_translate {o : Outline α} (h : o.WellFormed) (dx dy : α) :
    (o.translate dx dy).WellFormed := by
  cases o with
  | polyline points | polygon points | freehand run | bezier b =>
      simpa [translate, WellFormed] using h
  | _ => exact h

namespace Figure

variable {f : Figure α}

theorem wellFormed_rotate (h : f.outline.WellFormed) (center : Point α) (angle : α) :
    (f.rotate center angle).outline.WellFormed :=
  Outline.wellFormed_translate h _ _

theorem wellFormed_turnBy (h : f.outline.WellFormed) (c : Context α) :
    (f.turnBy c).outline.WellFormed := by
  unfold turnBy
  split
  · exact h
  · exact wellFormed_rotate h _ _

omit [Scalar α] in
theorem wellFormed_reversed (h : f.outline.WellFormed) : f.reversed.outline.WellFormed := by
  unfold reversed
  split
  · trivial
  · exact h

end Figure

/-! ## Paths with control points -/

/-- A path has a vertex, the one it starts at. -/
theorem Bezier.one_le_length_points {raw : List (Point α)} {b : Bezier α}
    (h : ofPoints? raw = some b) : 1 ≤ b.points.length := by
  have hsegments {start : Point α} {segments : List (Point α × Point α × Point α)}
      (h : ofSegments? start segments = some b) : 1 ≤ b.points.length := by
    rcases segments with - | ⟨⟨out, into, stop⟩, more⟩
    · cases h
    · simp only [ofSegments?] at h
      split at h <;> obtain rfl := Option.some.inj h <;> exact Nat.le_add_left 1 _
  unfold ofPoints? at h
  split at h
  · exact hsegments h
  · split at h
    · cases h
    · exact hsegments h

/-! ## Commands -/

theorem Context.length_points? {c : Context α} {coords : List Coord} {ps : List (Point α)}
    (h : c.points? coords = some ps) : ps.length = coords.length := by
  induction coords generalizing ps with
  | nil =>
      obtain rfl := Option.some.inj h
      rfl
  | cons coord coords ih =>
      simp only [points?, List.mapM_cons, bind, Option.bind_eq_some_iff, pure,
        Option.some.injEq] at h
      obtain ⟨p, -, qs, hqs, rfl⟩ := h
      rw [List.length_cons, List.length_cons, ih hqs]

namespace ShapeCommand

variable {c : Context α} {a : Arguments} {ds : Drawn α}

theorem wellFormed_only {o : Outline α} (h : o.WellFormed) : ∀ d ∈ only o, d.1.WellFormed :=
  List.forall_mem_singleton.mpr h

theorem wellFormed_line? (ha : 1 ≤ a.coords.length) (h : line? c a = some ds) :
    ∀ d ∈ ds, d.1.WellFormed := by
  obtain ⟨ps, hps, h⟩ := Option.bind_eq_some_iff.mp h
  have hlength : ps.length = a.coords.length := Context.length_points? hps
  match ps, h with
  | [], _ => exact absurd hlength (Nat.ne_of_lt ha)
  | [p], h =>
      obtain rfl := Option.some.inj h
      exact wellFormed_only (o := .polyline [.origin, p]) le_rfl
  | p :: q :: rest, h =>
      obtain rfl := Option.some.inj h
      exact wellFormed_only (o := .polyline (p :: q :: rest)) (Nat.le_add_left 2 rest.length)

theorem wellFormed_segment? (ha : 2 ≤ a.coords.length) (h : segment? c a = some ds) :
    ∀ d ∈ ds, d.1.WellFormed := by
  obtain ⟨ps, hps, h⟩ := Option.bind_eq_some_iff.mp h
  have hlength : ps.length = a.coords.length := Context.length_points? hps
  obtain rfl := Option.some.inj h
  exact wellFormed_only (o := .polyline ps) (ha.trans_eq hlength.symm)

theorem wellFormed_polygon? (h : polygon? c a = some ds) : ∀ d ∈ ds, d.1.WellFormed := by
  obtain ⟨ps, -, h⟩ := Option.bind_eq_some_iff.mp h
  match ps, h with
  | [], h | [_], h => cases h
  | [p, q], h =>
      obtain rfl := Option.some.inj h
      exact wellFormed_only (o := .polygon [.origin, p, q]) le_rfl
  | p :: q :: r :: rest, h =>
      obtain rfl := Option.some.inj h
      exact wellFormed_only (o := .polygon (p :: q :: r :: rest)) (Nat.le_add_left 3 rest.length)

theorem wellFormed_curve? {kind : CurveKind} (h : curve? c a kind = some ds) :
    ∀ d ∈ ds, d.1.WellFormed := by
  obtain ⟨ps, -, h⟩ := Option.bind_eq_some_iff.mp h
  match passed kind ps, h with
  | [], h | [_], h => cases h
  | p :: q :: rest, h =>
      obtain rfl := Option.some.inj h
      exact wellFormed_only (o := .freehand ⟨.curves, p :: q :: rest, kind ≠ .closed⟩)
        (Nat.le_add_left 2 rest.length)

theorem wellFormed_bezier? (h : bezier? c a = some ds) : ∀ d ∈ ds, d.1.WellFormed := by
  obtain ⟨ps, -, h⟩ := Option.bind_eq_some_iff.mp h
  obtain ⟨b, hb, h⟩ := Option.bind_eq_some_iff.mp h
  obtain rfl := Option.some.inj h
  exact wellFormed_only (o := .bezier b)
    ⟨Bezier.one_le_length_points hb, Bezier.length_controls hb⟩

theorem wellFormed_plot? (hc : 2 ≤ c.plotting.points) {function : String}
    (h : plot? c a function = some ds) : ∀ d ∈ ds, d.1.WellFormed := by
  simp only [plot?, bind, Option.bind_eq_some_iff, pure, Option.some.injEq] at h
  obtain ⟨x, -, low, -, y, -, high, -, stepX, -, stepY, -, rfl⟩ := h
  exact List.forall_mem_singleton.mpr hc

/-- A command that has the coordinates that it is written with draws well formed figures, and
a plot has as many steps as its context says. -/
theorem wellFormed_outlines? (command : ShapeCommand) (hc : 2 ≤ c.plotting.points)
    (ha : command.writtenCoords ≤ a.coords.length) (h : command.outlines? c a = some ds) :
    ∀ d ∈ ds, d.1.WellFormed := by
  cases command with
  | line => exact wellFormed_line? ha h
  | segment => exact wellFormed_segment? ha h
  | polygon => exact wellFormed_polygon? h
  | curve kind => exact wellFormed_curve? h
  | bezier => exact wellFormed_bezier? h
  | plot function => exact wellFormed_plot? hc h
  | frame | diamond | triangle | ellipse | circle | disk | wedge | arc | dot | dots | grid
    | axes =>
      intro d hd
      refine Outline.wellFormed_of_kind ?_
      rw [draws_outlines? _ c a ds h d hd]
      rfl

theorem wellFormed_finish (command : ShapeCommand) {d : Outline α × α} (hd : d.1.WellFormed) :
    (command.finish c a d).outline.WellFormed := by
  unfold finish
  refine Figure.wellFormed_turnBy ?_ c
  split
  · exact Figure.wellFormed_reversed hd
  · exact hd

end ShapeCommand

end PictureTree
