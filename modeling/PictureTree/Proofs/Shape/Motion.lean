/-
# `Proofs.Shape.Motion` — figures in motion

A figure keeps its measures and the angle that it is turned by apart.  Moving it
moves its coordinates; turning it about a centre moves them as well, by as much
as its own centre moves, and adds to the angle.  Either way it is its
`Outline.anchors` that move, and the `placeless` rest of it stays
(`anchors_translate`, `placeless_translate`, in any arithmetic).

What is drawn of a figure are the points that define it, turned by the angle
about the centre of the figure.  In exact arithmetic these points go where a
motion of the plane takes them:

    drawnPoints (f moved)     the drawn points of f, moved
    drawnPoints (f turned)    the drawn points of f, turned

For sixteen kinds of figures this comes down to two facts about each: its points
and its centre both move along with its coordinates (`Outline.points_translate`,
`Outline.center_translate`).
-/
import PictureTree.Proofs.Scalar.Exact
import PictureTree.Shape
import PictureTree.Shape.Construction

open scoped PictureTree.Scalar

namespace PictureTree

/-! ## The points of a figure -/

section Points

variable {α : Type} [Scalar α]

/-- The corners of an upright box, given by the one on its upper left. -/
def Point.boxCorners (p : Point α) (width height : α) : List (Point α) :=
  [p, p.translate width 0, p.translate width height, p.translate 0 height]

/-- The four points on the axes through a centre, at two distances. -/
def Point.axisPoints (p : Point α) (rx ry : α) : List (Point α) :=
  [p.translate rx 0, p.translate (-rx) 0, p.translate 0 ry, p.translate 0 (-ry)]

/-- The point of a lattice so many steps from its origin. -/
def Lattice.pointAt (l : Lattice α) (x y : α) : Point α :=
  l.position.translate (x * l.stepX) (-(y * l.stepY))

/-- The point of a plot at an argument and a value of its function. -/
def Plot.pointAt (p : Plot α) (x y : α) : Point α :=
  p.position.translate (x * p.scaleX) (-(y * p.scaleY))

namespace Outline

/-- The points that define an outline: corners, vertices with the control points
on both their sides, ends, and centres.  Of a lattice and of a plot they fix the
axes and the steps, and of a text the line that it stands on. -/
def points : Outline α → List (Point α)
  | .rectangle position width height _ => position.boxCorners width height
  | .ellipse center rx ry => center :: center.axisPoints rx ry
  | .rhombus center width height => center.axisPoints (width / 2) (height / 2)
  | .triangle position width height =>
      [position.translate (width / 2) 0, position.translate 0 height,
        position.translate width height]
  | .circle center radius => center :: center.axisPoints radius radius
  | .arc a => [a.center, a.pointAt a.startAngle, a.pointAt a.endAngle]
  | .polygon points => points
  | .polyline points => points
  | .bezier b => b.points ++ (b.points.zip b.controls).flatMap fun (p, c) => [c, c.reflect p]
  | .dot position _ diameter _ _ => position :: position.axisPoints (diameter / 2) (diameter / 2)
  | .grid l _ | .axes l _ =>
      [l.position, l.pointAt l.start.x l.start.y, l.pointAt l.stop.x l.start.y,
        l.pointAt l.stop.x l.stop.y, l.pointAt l.start.x l.stop.y]
  | .plot p => [p.pointAt 0 0, p.pointAt 0 1, p.pointAt p.low 0, p.pointAt p.high 0]
  | .freehand run => run.points
  | .text position _ _ => [position, position.translate 1 0]
  | .picture position _ width height =>
      (position.translate (-width / 2) (-height / 2)).boxCorners width height

/-- The points of model space that an outline is given by. -/
def anchors : Outline α → List (Point α)
  | .rectangle position .. | .triangle position .. | .dot position .. | .text position ..
  | .picture position .. => [position]
  | .ellipse center .. | .rhombus center .. | .circle center .. => [center]
  | .arc a => [a.center]
  | .polygon points | .polyline points => points
  | .bezier b => b.points ++ b.controls
  | .grid l _ | .axes l _ => [l.position]
  | .plot p => [p.position]
  | .freehand run => run.points

/-- The outline without these points: sizes, radii, angles, steps, styles and texts. -/
def placeless : Outline α → Outline α
  | .rectangle _ width height rounding => .rectangle .origin width height rounding
  | .ellipse _ rx ry => .ellipse .origin rx ry
  | .rhombus _ width height => .rhombus .origin width height
  | .triangle _ width height => .triangle .origin width height
  | .circle _ radius => .circle .origin radius
  | .arc a => .arc { a with center := .origin }
  | .polygon _ => .polygon []
  | .polyline _ => .polyline []
  | .bezier b => .bezier { b with points := [], controls := [] }
  | .dot _ style diameter color fill => .dot .origin style diameter color fill
  | .grid l style => .grid { l with position := .origin } style
  | .axes l style => .axes { l with position := .origin } style
  | .plot p => .plot { p with position := .origin }
  | .freehand run => .freehand { run with points := [] }
  | .text _ words color => .text .origin words color
  | .picture _ path width height => .picture .origin path width height

theorem anchors_translate (o : Outline α) (dx dy : α) :
    (o.translate dx dy).anchors = o.anchors.map fun p => p.translate dx dy := by
  cases o with
  | bezier b => exact List.map_append.symm
  | _ => rfl

theorem placeless_translate (o : Outline α) (dx dy : α) :
    (o.translate dx dy).placeless = o.placeless := by
  cases o <;> rfl

end Outline

/-- A path has as many control points as vertices, so its points leave none out. -/
theorem Bezier.length_controls {raw : List (Point α)} {b : Bezier α} (h : ofPoints? raw = some b) :
    b.controls.length = b.points.length := by
  have hsegments {start : Point α} {segments : List (Point α × Point α × Point α)}
      (h : ofSegments? start segments = some b) : b.controls.length = b.points.length := by
    rcases segments with - | ⟨⟨out, into, stop⟩, more⟩
    · cases h
    · simp only [ofSegments?] at h
      split at h <;> obtain rfl := Option.some.inj h <;> simp
  unfold ofPoints? at h
  split at h
  · exact hsegments h
  · split at h
    · cases h
    · exact hsegments h

/-- The points of a figure where they are drawn: turned about its centre. -/
def Figure.drawnPoints (f : Figure α) : List (Point α) :=
  f.outline.points.map fun p => p.rotateAround f.center f.rotation

end Points

variable {α : Type} [ExactScalar α]

/-! ## Motions of the plane -/

attribute [ext] Point

namespace Point

theorem add_def (p q : Point α) : p + q = ⟨p.x + q.x, p.y + q.y⟩ := rfl

theorem sub_def (p q : Point α) : p - q = ⟨p.x - q.x, p.y - q.y⟩ := rfl

theorem turn_def (v : Point α) (angle : α) :
    v.turn angle = ⟨Scalar.cos angle * v.x - Scalar.sin angle * v.y,
      Scalar.sin angle * v.x + Scalar.cos angle * v.y⟩ := rfl

/-- Moves of a point may be exchanged. -/
theorem translate_right_comm (p : Point α) (a b dx dy : α) :
    (p.translate dx dy).translate a b = (p.translate a b).translate dx dy :=
  Point.ext (add_right_comm ..) (add_right_comm ..)

/-- Turning twice is turning by the sum of the angles: this is the only use of the
addition formulas. -/
theorem turn_turn (v : Point α) (a b : α) : (v.turn a).turn b = v.turn (a + b) := by
  have hcos : Scalar.cos (a + b) = Scalar.cos a * Scalar.cos b - Scalar.sin a * Scalar.sin b :=
    ExactScalar.cos_add a b
  have hsin : Scalar.sin (a + b) = Scalar.sin a * Scalar.cos b + Scalar.cos a * Scalar.sin b :=
    ExactScalar.sin_add a b
  simp only [turn_def, hcos, hsin]
  ext <;> ring

theorem turn_add (v w : Point α) (a : α) : (v + w).turn a = v.turn a + w.turn a := by
  simp only [turn_def, add_def]
  ext <;> ring

/-- A turn about a centre that moves along. -/
theorem rotateAround_translate (p c : Point α) (angle dx dy : α) :
    (p.translate dx dy).rotateAround (c.translate dx dy) angle
      = (p.rotateAround c angle).translate dx dy := by
  simp only [rotateAround, turn_def, add_def, sub_def, translate]
  ext <;> ring

/-- A turn about `g` and then about `c` is a turn by both angles about the place
that `g` comes to, of a point that has moved with `g`. -/
theorem rotateAround_rotateAround (p g c : Point α) (a b : α) :
    let d := g.rotateAround c b - g
    (p.translate d.x d.y).rotateAround (g.translate d.x d.y) (a + b)
      = (p.rotateAround g a).rotateAround c b := by
  intro d
  have hplace : g + d = c + (g - c).turn b := by
    simp only [d, rotateAround, add_def, sub_def]
    ext <;> ring
  have hsplit : g + (p - g).turn a - c = (g - c) + (p - g).turn a := by
    simp only [add_def, sub_def]
    ext <;> ring
  rw [rotateAround_translate]
  calc (p.rotateAround g (a + b)).translate d.x d.y
      = (g + d) + (p - g).turn (a + b) := by
        simp only [rotateAround, translate, add_def]
        ext <;> ring
    _ = c + ((g - c).turn b + ((p - g).turn a).turn b) := by
        rw [hplace, turn_turn]
        simp only [add_def]
        ext <;> ring
    _ = (p.rotateAround g a).rotateAround c b := by
        rw [← turn_add, ← hsplit]
        rfl

theorem rotateAround_self (p : Point α) (angle : α) : p.rotateAround p angle = p := by
  simp only [rotateAround, turn_def, add_def, sub_def]
  ext <;> ring

theorem reflect_reflect (p c : Point α) : (p.reflect c).reflect c = p := by
  simp only [reflect, ExactScalar.literal_eq]
  ext <;> push_cast <;> ring

theorem reflect_translate (p c : Point α) (dx dy : α) :
    (p.translate dx dy).reflect (c.translate dx dy) = (p.reflect c).translate dx dy := by
  simp only [reflect, translate, ExactScalar.literal_eq]
  ext <;> push_cast <;> ring

theorem min_translate (p q : Point α) (dx dy : α) :
    (p.translate dx dy).min (q.translate dx dy) = (p.min q).translate dx dy := by
  simp only [min, translate, ExactScalar.scalar_min_eq]
  ext
  · exact min_add_add_right p.x q.x dx
  · exact min_add_add_right p.y q.y dy

theorem max_translate (p q : Point α) (dx dy : α) :
    (p.translate dx dy).max (q.translate dx dy) = (p.max q).translate dx dy := by
  simp only [max, translate, ExactScalar.scalar_max_eq]
  ext
  · exact max_add_add_right p.x q.x dx
  · exact max_add_add_right p.y q.y dy

/-- The middle of the box around some points moves along with them; without any
it is the origin, wherever they go. -/
theorem boundsCenter_translate {ps : List (Point α)} (h : ps ≠ []) (dx dy : α) :
    boundsCenter (ps.map fun p => p.translate dx dy) = (boundsCenter ps).translate dx dy := by
  obtain ⟨p, ps, rfl⟩ := List.exists_cons_of_ne_nil h
  have hlow : (ps.map fun p => p.translate dx dy).foldl min (p.translate dx dy)
      = (ps.foldl min p).translate dx dy :=
    List.foldl_map_hom fun p q => min_translate p q dx dy
  have hhigh : (ps.map fun p => p.translate dx dy).foldl max (p.translate dx dy)
      = (ps.foldl max p).translate dx dy :=
    List.foldl_map_hom fun p q => max_translate p q dx dy
  rw [List.map_cons, boundsCenter, boundsCenter, hlow, hhigh]
  simp only [translate, ExactScalar.literal_eq]
  ext <;> push_cast <;> ring

end Point

/-! ## The points and the centre of an outline move along -/

theorem Lattice.center_translate (l : Lattice α) (dx dy : α) :
    (l.translate dx dy).center = l.center.translate dx dy :=
  Point.translate_right_comm ..

namespace Outline

theorem points_translate (o : Outline α) (dx dy : α) :
    (o.translate dx dy).points = o.points.map fun p => p.translate dx dy := by
  have hcomm (p : Point α) (a b : α) :
      (p.translate dx dy).translate a b = (p.translate a b).translate dx dy :=
    Point.translate_right_comm p a b dx dy
  cases o with
  | polygon | polyline | freehand => rfl
  | bezier b =>
      simp only [points, translate, List.map_append, List.map_flatMap, List.zip_map,
        List.flatMap_map, Prod.map, Point.reflect_translate, List.map_cons, List.map_nil]
  | _ =>
      simp [points, translate, Point.boxCorners, Point.axisPoints, Arc.pointAt, Lattice.pointAt,
        Lattice.translate, Plot.pointAt, hcomm]

theorem center_translate {o : Outline α} (h : o.points ≠ []) (dx dy : α) :
    (o.translate dx dy).center = o.center.translate dx dy := by
  cases o with
  | polygon | polyline | freehand => exact Point.boundsCenter_translate h dx dy
  | bezier b =>
      have hpoints : b.points ≠ [] := by
        rintro hnil
        simp [points, hnil] at h
      exact Point.boundsCenter_translate hpoints dx dy
  | rectangle | triangle | plot => exact Point.translate_right_comm ..
  | grid l | axes l => exact l.center_translate dx dy
  | _ => rfl

/-- No move at all. -/
theorem translate_sub_self (o : Outline α) (p : Point α) :
    o.translate (p.x - p.x) (p.y - p.y) = o := by
  have hpoint (q : Point α) : q.translate (p.x - p.x) (p.y - p.y) = q := by
    simp only [Point.translate, sub_self, add_zero]
  cases o <;> simp only [translate, Lattice.translate, hpoint, List.map_id']

end Outline

/-! ## Figures -/

namespace Figure

/-- A figure turned about its own centre keeps its coordinates. -/
theorem rotate_center (f : Figure α) (angle : α) :
    f.rotate f.center angle = { f with rotation := f.rotation + angle } := by
  rw [rotate, Point.rotateAround_self, translate, Outline.translate_sub_self]

theorem turnBy_eq (f : Figure α) (c : Context α) :
    f.turnBy c = { f with rotation := f.rotation + c.shapeAngle } := by
  unfold turnBy
  split
  · next hzero =>
      have hangle : c.shapeAngle = 0 := of_decide_eq_true hzero
      rw [hangle, ExactScalar.literal_eq, Nat.cast_zero, add_zero]
  · exact f.rotate_center c.shapeAngle

/-- What is drawn of a figure that has moved and has another angle. -/
theorem drawnPoints_moved (f : Figure α) (dx dy angle : α) :
    { f.translate dx dy with rotation := angle }.drawnPoints
      = f.outline.points.map fun p =>
          (p.translate dx dy).rotateAround (f.center.translate dx dy) angle := by
  have hpoints := f.outline.points_translate dx dy
  show (f.outline.translate dx dy).points.map
    (fun p => p.rotateAround (f.outline.translate dx dy).center angle) = _
  by_cases hnil : f.outline.points = []
  · -- without points there is nothing to draw, wherever the centre is
    rw [hpoints, hnil]
    rfl
  · rw [hpoints, List.map_map, Outline.center_translate hnil]
    rfl

/-- A figure that is moved is drawn where the move takes what was drawn of it. -/
theorem drawnPoints_translate (f : Figure α) (dx dy : α) :
    (f.translate dx dy).drawnPoints = f.drawnPoints.map fun p => p.translate dx dy := by
  have hmoved : (f.translate dx dy).drawnPoints = _ := f.drawnPoints_moved dx dy f.rotation
  rw [hmoved, drawnPoints, List.map_map]
  exact List.map_congr_left fun p _ => Point.rotateAround_translate ..

/-- A figure that is turned is drawn where the turn takes what was drawn of it,
although its coordinates have only moved. -/
theorem drawnPoints_rotate (f : Figure α) (c : Point α) (angle : α) :
    (f.rotate c angle).drawnPoints = f.drawnPoints.map fun p => p.rotateAround c angle := by
  let d := f.center.rotateAround c angle - f.center
  have hturned : (f.rotate c angle).drawnPoints = _ :=
    f.drawnPoints_moved d.x d.y (f.rotation + angle)
  rw [hturned, drawnPoints, List.map_map]
  exact List.map_congr_left fun p _ => Point.rotateAround_rotateAround p f.center c f.rotation angle

end Figure

end PictureTree
