/-
# `Proofs.Shape.Frames` — frames between two corners

Two opposite corners of a frame can be given in four ways: either pair of them, and either one
first.  The frame looks at each axis by itself, and there at the smaller coordinate and at the
distance alone; so all four ways give one frame (`Outline.ofCorners_eq`).

Along an axis the frame covers the two coordinates and nothing else, unless they are closer than
the least size (`Spans`).  Then it still begins at the smaller one and ends beyond the larger.
-/
import PictureTree.Proofs.Shape.Corners

namespace PictureTree

variable {α : Type} [ExactScalar α]

/-! ## Along an axis -/

theorem leastSize_eq : (leastSize : α) = 1 / 10 := by
  show ExactScalar.ofNumeral (.decimal false 1 (-1)) = (1 / 10 : α)
  rw [ExactScalar.ofNumeral_decimal]
  norm_num

theorem extentBetween_eq (a b : α) : extentBetween a b = max |a - b| (1 / 10) := by
  rw [extentBetween, ExactScalar.scalar_max_eq, leastSize_eq]
  rfl

theorem extentBetween_comm (a b : α) : extentBetween a b = extentBetween b a := by
  rw [extentBetween_eq, extentBetween_eq, abs_sub_comm]

/-- What a frame covers along an axis on which its corners are at `a` and `b`. -/
structure Spans (low size a b : α) : Prop where
  low_eq : low = min a b
  least_le : 1 / 10 ≤ size
  left_mem : a ∈ Set.Icc low (low + size)
  right_mem : b ∈ Set.Icc low (low + size)
  high_eq : 1 / 10 ≤ |a - b| → low + size = max a b

theorem min_add_abs_sub (a b : α) : min a b + |a - b| = max a b := by
  rw [← max_sub_min_eq_abs', add_sub_cancel]

theorem spans_extentBetween (a b : α) : Spans (min a b) (extentBetween a b) a b := by
  have hreach : max a b ≤ min a b + extentBetween a b := by
    rw [← min_add_abs_sub, extentBetween_eq]
    exact add_le_add_right (le_max_left _ _) _
  constructor
  case low_eq => rfl
  case least_le =>
    rw [extentBetween_eq]
    exact le_max_right _ _
  case left_mem => exact ⟨min_le_left a b, (le_max_left a b).trans hreach⟩
  case right_mem => exact ⟨min_le_right a b, (le_max_right a b).trans hreach⟩
  case high_eq =>
    intro hfar
    rw [extentBetween_eq, max_eq_left hfar, min_add_abs_sub]

/-! ## Corners -/

/-- The ways in which two opposite corners can be given. -/
def Point.cornerPairs (p q : Point α) : List (Point α × Point α) :=
  [(p, q), (q, p), (⟨p.x, q.y⟩, ⟨q.x, p.y⟩), (⟨q.x, p.y⟩, ⟨p.x, q.y⟩)]

theorem Point.min_eq (p q : Point α) : p.min q = ⟨Min.min p.x q.x, Min.min p.y q.y⟩ := by
  simp only [Point.min, ExactScalar.scalar_min_eq]

/-- In whatever way the corners are given, they are those of one rectangle. -/
theorem Outline.ofCorners_eq {p q : Point α} {pair : Point α × Point α}
    (h : pair ∈ p.cornerPairs q) (rounding : α) :
    Outline.ofCorners pair.1 pair.2 rounding = .rectangle ⟨min p.x q.x, min p.y q.y⟩
      (extentBetween p.x q.x) (extentBetween p.y q.y) rounding := by
  simp only [Point.cornerPairs, List.mem_cons, List.not_mem_nil, or_false] at h
  rcases h with rfl | rfl | rfl | rfl <;>
    simp only [Outline.ofCorners, Point.min_eq, min_comm, extentBetween_comm]

namespace ShapeCommand

open scoped PictureTree.Scalar in
theorem figures?_frame {c : Context α} {palette : Palette α} {a : Arguments} {k l : Coord}
    {p q : Point α} (hk : (context c palette a).point? k = some p)
    (hl : (context c palette a).point? l = some q) (more : List Coord) :
    frame.figures? c palette { a with coords := k :: l :: more }
      = some [finish .frame (context c palette a) a
          (.ofCorners p q (context c palette a).frameArc, 0)] := by
  show (frame? (context c palette a) { a with coords := k :: l :: more }).map _ = _
  simp only [frame?, hk, hl]
  rfl

open scoped PictureTree.Scalar in
/-- All coordinates that resolve to two opposite corners, in any of the four ways to give them,
make one and the same frame.  Along each axis it begins at the smaller coordinate, is no smaller
than the least size, contains both corners, and ends at the larger one unless they are closer
than that. -/
theorem figures?_frame_corners (c : Context α) (palette : Palette α) (a : Arguments)
    (p q : Point α) :
    ∃ (f : Figure α) (position : Point α) (width height : α),
      (∀ pair ∈ p.cornerPairs q, ∀ k l more,
        (context c palette a).point? k = some pair.1 →
        (context c palette a).point? l = some pair.2 →
          frame.figures? c palette { a with coords := k :: l :: more } = some [f]) ∧
      f.outline = .rectangle position width height (context c palette a).frameArc ∧
      Spans position.x width p.x q.x ∧ Spans position.y height p.y q.y := by
  let c' := context c palette a
  let outline : Outline α := .rectangle ⟨min p.x q.x, min p.y q.y⟩ (extentBetween p.x q.x)
    (extentBetween p.y q.y) c'.frameArc
  refine ⟨finish .frame c' a (outline, 0), ⟨min p.x q.x, min p.y q.y⟩, extentBetween p.x q.x,
    extentBetween p.y q.y, fun pair hpair k l more hk hl => ?_, ?_, ?_, ?_⟩
  · rw [figures?_frame hk hl more, Outline.ofCorners_eq hpair]
  · exact outline_finish (by decide) ..
  · exact spans_extentBetween ..
  · exact spans_extentBetween ..

/-- A frame from one centimetre to three and from one to two, given in the four ways. -/
theorem figures?_frame_corners_cartesian :
    let c : Context ℝ := .initial 50
    let a : Arguments := ⟨false, [], none, [], []⟩
    let corner (x y : ℕ) : Coord := .cartesian ⟨.ofNat x, none⟩ ⟨.ofNat y, none⟩
    ∃ f : Figure ℝ, f.outline = .rectangle ⟨50, -100⟩ 100 50 (context c .predefined a).frameArc ∧
      ∀ coords ∈ [[corner 1 1, corner 3 2], [corner 3 2, corner 1 1],
          [corner 1 2, corner 3 1], [corner 3 1, corner 1 2]],
        frame.figures? c .predefined { a with coords := coords } = some [f] := by
  intro c a corner
  have hpoint (x y : ℕ) :
      (context c .predefined a).point? (corner x y) = some ⟨x * 50, -(y * 50)⟩ := by
    have hplace : (context c .predefined a).place (corner x y)
        = ⟨Scalar.ofNumeral (.ofNat x) * (Scalar.ofNumeral (.ofNat 1)
            * Scalar.ofNumeral (.ofNat 1)) * 50,
          -(Scalar.ofNumeral (.ofNat y) * (Scalar.ofNumeral (.ofNat 1)
            * Scalar.ofNumeral (.ofNat 1)) * 50)⟩ := rfl
    rw [Context.point?_eq_some, hplace, ExactScalar.ofNumeral_ofNat, ExactScalar.ofNumeral_ofNat,
      ExactScalar.ofNumeral_ofNat, Nat.cast_one, mul_one, mul_one, mul_one]
  obtain ⟨f, position, width, height, hways, houtline, hx, hy⟩ :=
    figures?_frame_corners c .predefined a ⟨(1 : ℕ) * 50, -((1 : ℕ) * 50)⟩
      ⟨(3 : ℕ) * 50, -((2 : ℕ) * 50)⟩
  have hleft : position.x = 50 := hx.low_eq.trans (by norm_num)
  have htop : position.y = -100 := hy.low_eq.trans (by norm_num)
  have hwidth : width = 100 := by
    have hright := hx.high_eq (by norm_num)
    norm_num [hleft] at hright
    linarith
  have hheight : height = 50 := by
    have hbottom := hy.high_eq (by norm_num)
    norm_num [htop] at hbottom
    linarith
  have hposition : position = ⟨50, -100⟩ := Point.ext hleft htop
  refine ⟨f, by rw [houtline, hposition, hwidth, hheight], ?_⟩
  simp only [Point.cornerPairs, List.forall_mem_cons] at hways
  obtain ⟨h1, h2, h3, h4, -⟩ := hways
  simp only [List.forall_mem_cons]
  exact ⟨h1 _ _ [] (hpoint 1 1) (hpoint 3 2), h2 _ _ [] (hpoint 3 2) (hpoint 1 1),
    h3 _ _ [] (hpoint 1 2) (hpoint 3 1), h4 _ _ [] (hpoint 3 1) (hpoint 1 2), nofun⟩

end ShapeCommand

end PictureTree
