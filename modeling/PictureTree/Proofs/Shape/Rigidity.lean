/-
# `Proofs.Shape.Rigidity` — shapes are turned as a whole

Turning a shape turns every figure in it about the one centre that is given.  A
figure has its own way of being turned, by moving its coordinates and adding to its
angle, and that is a turn of what is drawn (`Figure.drawnPoints_rotate`).  So for a
shape, groups of any depth included,

    what is drawn     is turned                         drawn_rotate, drawnAnchors_rotate
    what it is        stays: measures, styles, and      build_rotate
                      the differences of its points
    two turns         are one, by both angles           rotate_rotate

and the centre of a figure moves with it (`Outline.center_translate`).

A figure may have no vertices at all.  Its centre is the origin then, wherever it is
moved, and no turn can take it anywhere: with nothing to draw that does no harm, but a
curve that has control points and no vertices comes out of two turns at another place
than of one.

Flattening commutes with all of this, since it does not look at figures.
-/
import PictureTree.Proofs.Grouping.Leaves
import PictureTree.Proofs.Shape.Motion

open scoped PictureTree.Scalar

namespace PictureTree

/-! ## What a figure is made of -/

section Build

variable {α : Type} [Scalar α]

/-- The displacements between any two of some points. -/
def Point.differences (ps : List (Point α)) : List (Point α) :=
  ps.flatMap fun p => ps.map fun q => q - p

namespace Outline

/-- A polygon, a line, a curve or a path without a vertex. -/
def isEmpty : Outline α → Bool
  | .polygon points | .polyline points => points.isEmpty
  | .bezier b => b.points.isEmpty
  | .freehand run => run.points.isEmpty
  | _ => false

/-- A curve without a vertex that has control points. -/
def hasBareControls : Outline α → Bool
  | .bezier b => b.points.isEmpty && !b.controls.isEmpty
  | _ => false

end Outline

/-- The points that a figure is given by where they are drawn: turned about its centre. -/
def Figure.drawnAnchors (f : Figure α) : List (Point α) :=
  f.outline.anchors.map fun p => p.rotateAround f.center f.rotation

/-- What a figure is, wherever it is: its measures and styles, and how the points that
it is given by lie to each other. -/
def Figure.build (f : Figure α) : Outline α × List (Point α) × Paint α :=
  (f.outline.placeless, Point.differences f.outline.anchors, f.paint)

end Build

section Turns

variable {α : Type} [ExactScalar α]

/-! ## Motions of an outline -/

namespace Point

theorem differences_translate (ps : List (Point α)) (dx dy : α) :
    differences (ps.map fun p => p.translate dx dy) = differences ps := by
  simp only [differences, List.flatMap_map, List.map_map]
  refine List.flatMap_congr fun p _ => List.map_congr_left fun q _ => ?_
  ext
  · exact add_sub_add_right_eq_sub ..
  · exact add_sub_add_right_eq_sub ..

theorem translate_translate (p : Point α) (dx dy dx' dy' : α) :
    (p.translate dx dy).translate dx' dy' = p.translate (dx + dx') (dy + dy') :=
  Point.ext (add_assoc ..) (add_assoc ..)

/-- Two turns about one centre are one by both angles. -/
theorem rotateAround_twice (p c : Point α) (a b : α) :
    (p.rotateAround c a).rotateAround c b = p.rotateAround c (a + b) := by
  have hback : c + (p - c).turn a - c = (p - c).turn a := by
    simp only [add_def, sub_def]
    ext <;> ring
  rw [rotateAround, rotateAround, hback, turn_turn]
  rfl

/-- A half turn is a reflection. -/
theorem rotateAround_pi (p c : Point ℝ) : p.rotateAround c Real.pi = p.reflect c := by
  have hturn (v : Point ℝ) : v.turn Real.pi = ⟨-v.x, -v.y⟩ := by
    show (⟨Real.cos Real.pi * v.x - Real.sin Real.pi * v.y,
      Real.sin Real.pi * v.x + Real.cos Real.pi * v.y⟩ : Point ℝ) = _
    simp
  rw [rotateAround, hturn]
  simp only [add_def, sub_def, reflect, ExactScalar.literal_eq]
  ext <;> push_cast <;> ring

end Point

namespace Outline

theorem translate_translate (o : Outline α) (dx dy dx' dy' : α) :
    (o.translate dx dy).translate dx' dy' = o.translate (dx + dx') (dy + dy') := by
  have hmap (ps : List (Point α)) :
      (ps.map fun p => p.translate dx dy).map (fun p => p.translate dx' dy')
        = ps.map fun p => p.translate (dx + dx') (dy + dy') := by
    simp only [List.map_map, Function.comp_def, Point.translate_translate]
  cases o <;> simp only [translate, Lattice.translate, Point.translate_translate, hmap]

theorem isEmpty_iff {o : Outline α} : o.isEmpty = true ↔ o.points = [] := by
  cases o with
  | polygon | polyline | freehand => exact List.isEmpty_iff
  | bezier b => cases h : b.points <;> simp [isEmpty, points, h]
  | _ => simp [isEmpty, points, Point.boxCorners, Point.axisPoints]

theorem isEmpty_translate (o : Outline α) (dx dy : α) :
    (o.translate dx dy).isEmpty = o.isEmpty := by
  cases o <;> first
    | rfl
    | exact List.isEmpty_map

/-- Without vertices the centre is the origin. -/
theorem center_of_isEmpty {o : Outline α} (h : o.isEmpty = true) : o.center = .origin := by
  cases o with
  | polygon | polyline | freehand =>
      rw [center, List.isEmpty_iff.mp h]
      rfl
  | bezier b =>
      rw [center, List.isEmpty_iff.mp h]
      rfl
  | _ => cases h

omit [ExactScalar α] in
theorem anchors_of_isEmpty {o : Outline α} (h : o.isEmpty = true)
    (hbare : o.hasBareControls = false) : o.anchors = [] := by
  cases o with
  | polygon | polyline | freehand => exact List.isEmpty_iff.mp h
  | bezier b =>
      have hpoints : b.points = [] := List.isEmpty_iff.mp h
      simpa [anchors, hasBareControls, hpoints] using hbare
  | _ => cases h

/-- Without vertices and control points there is nothing to be moved. -/
theorem translate_of_isEmpty {o : Outline α} (h : o.isEmpty = true)
    (hbare : o.hasBareControls = false) (dx dy : α) : o.translate dx dy = o := by
  cases o with
  | polygon points | polyline points =>
      obtain rfl := List.isEmpty_iff.mp h
      rfl
  | freehand run =>
      obtain ⟨kind, points, isOpen⟩ := run
      obtain rfl : points = [] := List.isEmpty_iff.mp h
      rfl
  | bezier b =>
      obtain ⟨points, controls, closed⟩ := b
      obtain rfl : points = [] := List.isEmpty_iff.mp h
      obtain rfl : controls = [] := by simpa [hasBareControls] using hbare
      rfl
  | _ => cases h

end Outline

/-! ## Turns of a figure -/

namespace Figure

theorem build_rotate (f : Figure α) (c : Point α) (angle : α) :
    (f.rotate c angle).build = f.build := by
  let d := f.center.rotateAround c angle - f.center
  show ((f.outline.translate d.x d.y).placeless,
    Point.differences (f.outline.translate d.x d.y).anchors, f.paint) = f.build
  rw [Outline.placeless_translate, Outline.anchors_translate, Point.differences_translate]
  rfl

theorem center_rotate {f : Figure α} (h : f.outline.isEmpty = false) (c : Point α) (angle : α) :
    (f.rotate c angle).center = f.center.rotateAround c angle := by
  let d := f.center.rotateAround c angle - f.center
  have hpoints : f.outline.points ≠ [] := fun hnil => by
    rw [Outline.isEmpty_iff.mpr hnil] at h
    cases h
  calc (f.rotate c angle).center = f.center.translate d.x d.y :=
        Outline.center_translate hpoints d.x d.y
    _ = f.center.rotateAround c angle := Point.ext (add_sub_cancel ..) (add_sub_cancel ..)

/-- The points that a figure is given by are turned with it, like all that is drawn. -/
theorem drawnAnchors_rotate {f : Figure α} (h : f.outline.hasBareControls = false) (c : Point α)
    (angle : α) :
    (f.rotate c angle).drawnAnchors = f.drawnAnchors.map fun p => p.rotateAround c angle := by
  let d := f.center.rotateAround c angle - f.center
  have hanchors : (f.rotate c angle).outline.anchors
      = f.outline.anchors.map fun p => p.translate d.x d.y := f.outline.anchors_translate d.x d.y
  rw [drawnAnchors, drawnAnchors, hanchors, List.map_map, List.map_map]
  cases hempty : f.outline.isEmpty with
  | true =>
      rw [Outline.anchors_of_isEmpty hempty h]
      rfl
  | false =>
      have hcenter : (f.rotate c angle).center = f.center.translate d.x d.y := by
        rw [center_rotate hempty]
        exact Point.ext (add_sub_cancel ..).symm (add_sub_cancel ..).symm
      rw [hcenter]
      exact List.map_congr_left fun p _ =>
        Point.rotateAround_rotateAround p f.center c f.rotation angle

theorem rotate_eq (f : Figure α) (c : Point α) (angle : α) :
    f.rotate c angle = ⟨f.outline.translate ((f.center.rotateAround c angle).x - f.center.x)
      ((f.center.rotateAround c angle).y - f.center.y), f.rotation + angle, f.paint⟩ := rfl

theorem rotate_rotate {f : Figure α} (h : f.outline.hasBareControls = false) (c : Point α)
    (a b : α) : (f.rotate c a).rotate c b = f.rotate c (a + b) := by
  cases hempty : f.outline.isEmpty with
  | true =>
      have hstays := fun dx dy => f.outline.translate_of_isEmpty hempty h dx dy
      simp only [rotate_eq, hstays, add_assoc]
  | false =>
      -- the second turn takes the centre on from where the first has left it
      rw [rotate_eq (f.rotate c a), center_rotate hempty, Point.rotateAround_twice]
      show Figure.mk ((f.outline.translate _ _).translate _ _) (f.rotation + a + b) f.paint = _
      rw [Outline.translate_translate, sub_add_sub_cancel', sub_add_sub_cancel', add_assoc]
      rfl

/-- The centre moves with a figure, but for a figure without vertices. -/
theorem center_translate (f : Figure α) (dx dy : α) :
    (f.outline.isEmpty = false → (f.translate dx dy).center = f.center.translate dx dy) ∧
    (f.outline.isEmpty = true → f.center = .origin ∧ (f.translate dx dy).center = .origin) := by
  refine ⟨fun h => Outline.center_translate (fun hnil => ?_) dx dy, fun h => ?_⟩
  · rw [Outline.isEmpty_iff.mpr hnil] at h
    cases h
  · have hmoved : (f.outline.translate dx dy).isEmpty = true :=
      (f.outline.isEmpty_translate dx dy).trans h
    exact ⟨Outline.center_of_isEmpty h, Outline.center_of_isEmpty hmoved⟩

end Figure

/-! ## Turns of a shape -/

namespace Shape

theorem drawn_rotate (s : Shape α) (c : Point α) (angle : α) :
    (s.rotate c angle).map Figure.drawnPoints
      = (s.map Figure.drawnPoints).map fun ps => ps.map fun p => p.rotateAround c angle := by
  simp only [rotate, Grouping.map_map, Figure.drawnPoints_rotate]

theorem build_rotate (s : Shape α) (c : Point α) (angle : α) :
    (s.rotate c angle).map Figure.build = s.map Figure.build := by
  simp only [rotate, Grouping.map_map, Figure.build_rotate]

theorem drawnAnchors_rotate {s : Shape α}
    (h : ∀ f ∈ s.leaves, f.outline.hasBareControls = false) (c : Point α) (angle : α) :
    (s.rotate c angle).map Figure.drawnAnchors
      = (s.map Figure.drawnAnchors).map fun ps => ps.map fun p => p.rotateAround c angle := by
  simp only [rotate, Grouping.map_map]
  exact Grouping.map_congr fun f hf => Figure.drawnAnchors_rotate (h f hf) c angle

theorem rotate_rotate {s : Shape α}
    (h : ∀ f ∈ s.leaves, f.outline.hasBareControls = false) (c : Point α) (a b : α) :
    (s.rotate c a).rotate c b = s.rotate c (a + b) := by
  simp only [rotate, Grouping.map_map]
  exact Grouping.map_congr fun f hf => Figure.rotate_rotate (h f hf) c a b

/-- A turn of a shape turns what is drawn of every figure in it and leaves the figures
as they are.  Unless there is a curve with control points and no vertices, it turns all
points that the figures are given by, and two turns about one centre are one by both
angles.  The centre of a figure moves with the figure, unless that has no vertices. -/
theorem rotate_rigid (s : Shape α) (c : Point α) (a b : α) :
    ((s.rotate c a).map Figure.drawnPoints
      = (s.map Figure.drawnPoints).map fun ps => ps.map fun p => p.rotateAround c a) ∧
    (s.rotate c a).map Figure.build = s.map Figure.build ∧
    ((∀ f ∈ s.leaves, f.outline.hasBareControls = false) →
      (s.rotate c a).map Figure.drawnAnchors
        = (s.map Figure.drawnAnchors).map (fun ps => ps.map fun p => p.rotateAround c a) ∧
      (s.rotate c a).rotate c b = s.rotate c (a + b)) ∧
    ∀ f ∈ s.leaves, ∀ dx dy,
      (f.outline.isEmpty = false → (f.translate dx dy).center = f.center.translate dx dy) ∧
      (f.outline.isEmpty = true → f.center = .origin ∧ (f.translate dx dy).center = .origin) :=
  ⟨s.drawn_rotate c a, s.build_rotate c a,
    fun h => ⟨drawnAnchors_rotate h c a, rotate_rotate h c a b⟩,
    fun f _ dx dy => f.center_translate dx dy⟩

/-- Two half turns of a line and, in a group, of a circle. -/
theorem rotate_rigid_half_turns :
    let s : Shape ℝ := .group [.one (.ofOutline (.polyline [⟨0, 0⟩, ⟨2, 1⟩]) 0),
      .group [.one (.ofOutline (.circle ⟨3, 0⟩ 1) 0)]]
    (s.rotate ⟨1, 1⟩ Real.pi).rotate ⟨1, 1⟩ Real.pi = s.rotate ⟨1, 1⟩ (Real.pi + Real.pi) := by
  intro s
  refine ((rotate_rigid s ⟨1, 1⟩ Real.pi Real.pi).2.2.1 ?_).2
  simp [s, Grouping.leaves, Grouping.leavesOfAll, Figure.ofOutline, Outline.hasBareControls]

/-- A polygon without vertices has its centre at the origin after a move as well, and a
curve with a control point alone is not at home again after two half turns. -/
theorem without_vertices_not_rigid :
    ((.blank .polygon : Figure ℝ).translate 1 1).center
      ≠ (.blank .polygon : Figure ℝ).center.translate 1 1 ∧
    let f : Figure ℝ := .ofOutline (.bezier ⟨[], [.origin], false⟩) 0
    (f.rotate ⟨1, 0⟩ Real.pi).rotate ⟨1, 0⟩ Real.pi ≠ f.rotate ⟨1, 0⟩ (Real.pi + Real.pi) := by
  constructor
  · intro h
    have hx : (Point.origin : Point ℝ).x = (Point.origin : Point ℝ).x + 1 := congrArg Point.x h
    simp at hx
  · intro f h
    -- the centre is the origin before and after a turn, so each half turn moves by two
    have hhalf : (Point.origin : Point ℝ).rotateAround ⟨1, 0⟩ Real.pi = ⟨2, 0⟩ := by
      rw [Point.rotateAround_pi]
      simp [Point.reflect, Point.origin]
    have hwhole : (Point.origin : Point ℝ).rotateAround ⟨1, 0⟩ (Real.pi + Real.pi) = .origin := by
      rw [← Point.rotateAround_twice, hhalf, Point.rotateAround_pi]
      simp [Point.reflect, Point.origin]
    let moved (angle : ℝ) : ℝ :=
      (Point.rotateAround .origin ⟨1, 0⟩ angle).x - (Point.origin : Point ℝ).x
    have hx : (Point.origin : Point ℝ).x + moved Real.pi + moved Real.pi
        = (Point.origin : Point ℝ).x + moved (Real.pi + Real.pi) :=
      List.head_eq_of_cons_eq (congrArg (fun f => f.outline.anchors.map Point.x) h)
    simp only [moved, hhalf, hwhole] at hx
    simp [Point.origin] at hx

end Shape

end Turns

/-! ## Flattening -/

section Flattening

variable {α : Type} [Scalar α]

/-- Flattening after moving or turning every shape of a list is moving or turning every
shape of the flattened list. -/
theorem Shape.flatten_moved (gs : List (Shape α)) :
    (∀ dx dy, Grouping.flatten (gs.map fun s : Shape α => s.translate dx dy)
      = (Grouping.flatten gs).map fun s : Shape α => s.translate dx dy) ∧
    ∀ center angle, Grouping.flatten (gs.map fun s : Shape α => s.rotate center angle)
      = (Grouping.flatten gs).map fun s : Shape α => s.rotate center angle := by
  have hmap (f : Figure α → Figure α) : Grouping.flatten (gs.map (Grouping.map f))
      = (Grouping.flatten gs).map (Grouping.map f) := by
    rw [← Grouping.mapAll_eq_map, ← Grouping.mapAll_eq_map, Grouping.flatten_mapAll]
  exact ⟨fun dx dy => hmap fun f => f.translate dx dy,
    fun center angle => hmap fun f => f.rotate center angle⟩

end Flattening

end PictureTree
