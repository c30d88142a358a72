/-
# `Proofs.Canvas.Retracing` — what a line that is taken in retraces

A line of two points that joins the ends of the arc drawn just before it is taken in, and
the arc is drawn as a chord.  Both figures may be turned, each about its own centre.  The
ends of the arc are looked at where they are drawn, but the points of the line as they
are kept, before it is turned.

So a line that is not turned retraces the chord.  One that is turned by half a turn does so
as well: its centre is the middle between its two points, which change places.  Under every
other angle some line is taken in that is drawn elsewhere: a diameter that crosses the one
it is taken for, of a circle large enough (`Figure.diameter`).
-/
import Mathlib
import PictureTree.Proofs.Canvas.Chords
import PictureTree.Proofs.Shape.Motion

namespace PictureTree

variable {α : Type} [ExactScalar α]

/-! ## Lines along a chord -/

/-- Two points agree on both axes, up to a tolerance. -/
def Point.Within (tolerance : α) (p q : Point α) : Prop :=
  |p.x - q.x| ≤ tolerance ∧ |p.y - q.y| ≤ tolerance

/-- The points are where the ends of the arc of a figure are drawn, in one of the two
orders. -/
def Figure.JoinedBy (tolerance : α) (arc : Figure α) (p q : Point α) : Prop :=
  ∃ a, arc.outline = .arc a ∧
    (p.Within tolerance (a.startPoint arc.rotation) ∧
        q.Within tolerance (a.endPoint arc.rotation) ∨
      p.Within tolerance (a.endPoint arc.rotation) ∧
        q.Within tolerance (a.startPoint arc.rotation))

/-- A line that is not kept when it is drawn into a scope: the arc drawn just before it
becomes a chord instead. -/
def Scope.TakesIn (o : Options α) (s : Scope α) (line arc : Figure α) : Prop :=
  ∃ rest, s.drawn = .one arc :: rest ∧ (s.emit o (.one line)).drawn = .one arc.asChord :: rest

theorem Point.near_iff {p q : Point α} {tolerance : α} :
    p.near q tolerance = true ↔ p.Within tolerance q := by
  show (decide (|p.x - q.x| ≤ tolerance) && decide (|p.y - q.y| ≤ tolerance)) = true ↔ _
  rw [Bool.and_eq_true, decide_eq_true_eq, decide_eq_true_eq]
  rfl

theorem Arc.isChord_iff {a : Arc α} {rotation tolerance : α} {p q : Point α} :
    a.isChord rotation p q tolerance = true ↔
      p.Within tolerance (a.startPoint rotation) ∧ q.Within tolerance (a.endPoint rotation) ∨
        p.Within tolerance (a.endPoint rotation) ∧ q.Within tolerance (a.startPoint rotation) := by
  simp only [isChord, Bool.or_eq_true, Bool.and_eq_true, Point.near_iff]

namespace Figure

variable {tolerance : α} {arc : Figure α} {p q : Point α}

theorem JoinedBy.swap (h : arc.JoinedBy tolerance p q) : arc.JoinedBy tolerance q p := by
  obtain ⟨a, ha, h⟩ := h
  exact ⟨a, ha, (h.imp And.symm And.symm).symm⟩

/-- Nothing agrees with anything up to less than nothing. -/
theorem JoinedBy.tolerance_nonneg (h : arc.JoinedBy tolerance p q) : 0 ≤ tolerance := by
  obtain ⟨a, -, ⟨hp, -⟩ | ⟨hp, -⟩⟩ := h <;> exact (abs_nonneg _).trans hp.1

end Figure

/-- What is taken in is a line of two points, which join the ends of the arc as they are
kept. -/
theorem Scope.TakesIn.exists_joinedBy {o : Options α} {s : Scope α} {line arc : Figure α}
    (h : s.TakesIn o line arc) :
    ∃ p q, line.outline = .polyline [p, q] ∧ arc.JoinedBy o.chordTolerance p q := by
  obtain ⟨rest, hdrawn, hemit⟩ := h
  by_cases hcloses : Shape.Closes o.chordTolerance (.one line) (.one arc)
  · obtain ⟨f, g, a, p, q, hf, hg, ha, hline, -, hchord⟩ := hcloses
    obtain rfl := Grouping.one.inj hf
    obtain rfl := Grouping.one.inj hg
    exact ⟨p, q, hline, a, ha, Arc.isChord_iff.mp hchord⟩
  · -- the line is kept, so there is one shape more
    have hkept : (s.emit o (.one line)).drawn = .one line :: .one arc :: rest := by
      show draw o.chordTolerance s.drawn (.one line) = _
      rw [hdrawn]
      exact draw_of_not_closes fun last hlast => by cases hlast; exact hcloses
    exact absurd (congrArg List.length (hkept.symm.trans hemit)) (by simp)

theorem Scope.takesIn_of_joinedBy {o : Options α} {s : Scope α} {line arc : Figure α} {a : Arc α}
    {p q : Point α} {rest : List (Shape α)} (hdrawn : s.drawn = .one arc :: rest)
    (harc : arc.outline = .arc a) (hstyle : a.style = .arc)
    (hline : line.outline = .polyline [p, q]) (h : arc.JoinedBy o.chordTolerance p q) :
    s.TakesIn o line arc := by
  obtain ⟨a', ha', hjoined⟩ := h
  obtain rfl : a = a' := Outline.arc.inj (harc.symm.trans ha')
  refine ⟨rest, hdrawn, ?_⟩
  show draw o.chordTolerance s.drawn (.one line) = _
  rw [hdrawn]
  exact draw_of_closes
    ⟨arc, line, a, p, q, rfl, rfl, harc, hline, hstyle, Arc.isChord_iff.mpr hjoined⟩

/-! ## Half turns -/

/-- The centre of a line of two points is the middle between them. -/
theorem Point.boundsCenter_pair (p q : Point α) :
    boundsCenter [p, q] = ⟨(p.x + q.x) / 2, (p.y + q.y) / 2⟩ := by
  simp only [boundsCenter, List.foldl_cons, List.foldl_nil, Point.min, Point.max,
    ExactScalar.scalar_min_eq, ExactScalar.scalar_max_eq, min_add_max, ExactScalar.literal_eq,
    Nat.cast_ofNat]

theorem Point.reflect_boundsCenter (p q : Point α) : p.reflect (boundsCenter [p, q]) = q := by
  rw [boundsCenter_pair]
  simp only [reflect, ExactScalar.literal_eq, Nat.cast_ofNat]
  ext <;> ring

theorem Point.rotateAround_def (p c : Point ℝ) (angle : ℝ) :
    p.rotateAround c angle
      = ⟨c.x + (Real.cos angle * (p.x - c.x) - Real.sin angle * (p.y - c.y)),
        c.y + (Real.sin angle * (p.x - c.x) + Real.cos angle * (p.y - c.y))⟩ := rfl

/-- A turn whose sine is zero is no turn or half a turn. -/
theorem Point.rotateAround_of_sin_eq_zero {angle : ℝ} (h : Real.sin angle = 0) :
    (∀ p c : Point ℝ, p.rotateAround c angle = p) ∨
      ∀ p c : Point ℝ, p.rotateAround c angle = p.reflect c := by
  obtain hcos | hcos := Real.sin_eq_zero_iff_cos_eq.mp h
  · left
    intro p c
    rw [rotateAround_def, h, hcos]
    ext <;> ring
  · right
    intro p c
    rw [rotateAround_def, h, hcos]
    simp only [reflect, ExactScalar.literal_eq, Nat.cast_ofNat]
    ext <;> ring

namespace Figure

/-- The line is drawn where it joins the ends of the arc. -/
def Retraces (tolerance : α) (line arc : Figure α) : Prop :=
  ∃ p q, line.drawnPoints = [p, q] ∧ arc.JoinedBy tolerance p q

/-- A line that joins the ends of an arc does so if it is turned by half a turn, or not at
all. -/
theorem JoinedBy.retraces {tolerance : ℝ} {line arc : Figure ℝ} {p q : Point ℝ}
    (h : arc.JoinedBy tolerance p q) (hline : line.outline = .polyline [p, q])
    (hangle : Real.sin line.rotation = 0) : line.Retraces tolerance arc := by
  let c : Point ℝ := .boundsCenter [p, q]
  have hdrawn : line.drawnPoints
      = [p.rotateAround c line.rotation, q.rotateAround c line.rotation] := by
    rw [drawnPoints, center, hline]
    rfl
  obtain hkept | hreflected := Point.rotateAround_of_sin_eq_zero hangle
  · exact ⟨p, q, by rw [hdrawn, hkept, hkept], h⟩
  · have hp : p.reflect c = q := p.reflect_boundsCenter q
    have hq : q.reflect c = p := by rw [← hp, Point.reflect_reflect]
    exact ⟨q, p, by rw [hdrawn, hreflected, hreflected, hp, hq], h.swap⟩

/-! ## Diameters -/

/-- The upper half of a circle about the origin. -/
noncomputable def halfCircle (radius : ℝ) : Figure ℝ :=
  .ofOutline (.arc ⟨⟨0, 0⟩, radius, 0, Real.pi, .arc⟩) 0

/-- The horizontal diameter of a circle about the origin, turned by an angle. -/
noncomputable def diameter (radius angle : ℝ) : Figure ℝ :=
  .ofOutline (.polyline [⟨radius, 0⟩, ⟨-radius, 0⟩]) angle

theorem joinedBy_halfCircle_iff {tolerance radius : ℝ} {p q : Point ℝ} :
    (halfCircle radius).JoinedBy tolerance p q ↔
      p.Within tolerance ⟨radius, 0⟩ ∧ q.Within tolerance ⟨-radius, 0⟩ ∨
        p.Within tolerance ⟨-radius, 0⟩ ∧ q.Within tolerance ⟨radius, 0⟩ := by
  let a : Arc ℝ := ⟨⟨0, 0⟩, radius, 0, Real.pi, .arc⟩
  have hpoint (angle : ℝ) : (a.pointAt angle).rotateAround a.center 0
      = ⟨radius * Real.cos angle, -radius * Real.sin angle⟩ := by
    have hat : a.pointAt angle = ⟨0 + radius * Real.cos angle, 0 + -radius * Real.sin angle⟩ := rfl
    rw [hat, Point.rotateAround_def]
    simp [a]
  have hstart : a.startPoint 0 = ⟨radius, 0⟩ := by
    rw [Arc.startPoint, hpoint, Real.cos_zero, Real.sin_zero, mul_one, mul_zero]
  have hstop : a.endPoint 0 = ⟨-radius, 0⟩ := by
    rw [Arc.endPoint, hpoint, Real.cos_pi, Real.sin_pi, mul_neg_one, mul_zero]
  constructor
  · rintro ⟨_, houtline, h⟩
    cases houtline
    rwa [← hstart, ← hstop]
  · intro h
    rw [← hstart, ← hstop] at h
    exact ⟨a, rfl, h⟩

theorem drawnPoints_diameter (radius angle : ℝ) :
    (diameter radius angle).drawnPoints
      = [⟨radius * Real.cos angle, radius * Real.sin angle⟩,
        ⟨-(radius * Real.cos angle), -(radius * Real.sin angle)⟩] := by
  have hcenter : (diameter radius angle).center = ⟨0, 0⟩ := by
    show Point.boundsCenter [⟨radius, 0⟩, ⟨-radius, 0⟩] = _
    rw [Point.boundsCenter_pair]
    norm_num
  rw [drawnPoints, hcenter]
  show [Point.rotateAround ⟨radius, 0⟩ ⟨0, 0⟩ angle,
    Point.rotateAround ⟨-radius, 0⟩ ⟨0, 0⟩ angle] = _
  rw [Point.rotateAround_def, Point.rotateAround_def]
  simp [mul_comm]

/-- A turned diameter retraces the horizontal one only if its ends have not gone up or down. -/
theorem Retraces.abs_le {tolerance radius angle : ℝ}
    (h : (diameter radius angle).Retraces tolerance (halfCircle radius)) :
    |radius * Real.sin angle| ≤ tolerance := by
  obtain ⟨p, q, hdrawn, hjoined⟩ := h
  rw [drawnPoints_diameter] at hdrawn
  cases hdrawn
  obtain ⟨⟨-, hy⟩, -⟩ | ⟨⟨-, hy⟩, -⟩ := joinedBy_halfCircle_iff.mp hjoined <;> simpa using hy

end Figure

/-- The diameter of half a circle is taken in, however it is turned. -/
theorem Scope.takesIn_diameter {o : Options ℝ} {s : Scope ℝ} {radius : ℝ}
    {rest : List (Shape ℝ)} (h : 0 ≤ o.chordTolerance)
    (hdrawn : s.drawn = .one (.halfCircle radius) :: rest) (angle : ℝ) :
    s.TakesIn o (.diameter radius angle) (.halfCircle radius) := by
  have hself (p : Point ℝ) : p.Within o.chordTolerance p := by simpa [Point.Within] using h
  exact takesIn_of_joinedBy hdrawn rfl rfl rfl
    (Figure.joinedBy_halfCircle_iff.mpr (Or.inl ⟨hself _, hself _⟩))

namespace Scope

/-- A line that is taken in has two points, and as they are kept they join the ends of the
arc where these are drawn.  The line itself is drawn along the chord if it is turned by half
a turn or not at all; under any other angle, there are lines that are taken in and drawn
elsewhere. -/
theorem takesIn_retraces_iff (o : Options ℝ) :
    (∀ s line arc, TakesIn o s line arc → ∃ p q, line.outline = .polyline [p, q] ∧
      arc.JoinedBy o.chordTolerance p q) ∧
    ∀ angle, (∀ s line arc, TakesIn o s line arc → line.rotation = angle →
      line.Retraces o.chordTolerance arc) ↔ Real.sin angle = 0 ∨ o.chordTolerance < 0 := by
  refine ⟨fun _ _ _ h => h.exists_joinedBy, fun angle =>
    ⟨fun h => ?_, fun h s line arc hin hangle => ?_⟩⟩
  · by_contra! hno
    obtain ⟨hsin, htolerance⟩ := hno
    -- the radius puts the ends of the turned diameter farther from the axis than allowed
    let radius := (o.chordTolerance + 1) / |Real.sin angle|
    let s : Scope ℝ := { ofContext (.initial 50) with drawn := [.one (.halfCircle radius)] }
    have hin : s.TakesIn o (.diameter radius angle) (.halfCircle radius) :=
      takesIn_diameter htolerance rfl angle
    have hle : |radius * Real.sin angle| ≤ o.chordTolerance := (h _ _ _ hin rfl).abs_le
    have hfar : |radius * Real.sin angle| = o.chordTolerance + 1 := by
      rw [abs_mul, abs_div, abs_abs, div_mul_cancel₀ _ (abs_ne_zero.mpr hsin)]
      exact abs_of_nonneg (by linarith)
    linarith
  · obtain ⟨p, q, hline, hjoined⟩ := hin.exists_joinedBy
    obtain hsin | hnegative := h
    · exact hjoined.retraces hline (hangle ▸ hsin)
    · exact absurd hjoined.tolerance_nonneg (not_le.mpr hnegative)

/-- A diameter that is turned by half a turn retraces its arc. -/
theorem takesIn_retraces_half_turn :
    let o : Options ℝ := ⟨50, 1 / 2, fun _ => none⟩
    let s : Scope ℝ := { ofContext (.initial 50) with drawn := [.one (.halfCircle 50)] }
    s.TakesIn o (.diameter 50 Real.pi) (.halfCircle 50) ∧
      (Figure.diameter 50 Real.pi).Retraces o.chordTolerance (.halfCircle 50) := by
  intro o s
  have hin : s.TakesIn o (.diameter 50 Real.pi) (.halfCircle 50) :=
    takesIn_diameter (by norm_num [o]) rfl Real.pi
  have hretraces := ((takesIn_retraces_iff o).2 Real.pi).mpr (Or.inl Real.sin_pi)
  exact ⟨hin, hretraces s _ _ hin rfl⟩

/-- A diameter that is turned by a quarter is taken in, although it is drawn upright. -/
theorem takesIn_upright_diameter :
    let o : Options ℝ := ⟨50, 1 / 2, fun _ => none⟩
    let s : Scope ℝ := { ofContext (.initial 50) with drawn := [.one (.halfCircle 50)] }
    let line := Figure.diameter 50 (-(Real.pi / 2))
    s.TakesIn o line (.halfCircle 50) ∧ line.drawnPoints = [⟨0, -50⟩, ⟨0, 50⟩] ∧
      ¬ line.Retraces o.chordTolerance (.halfCircle 50) := by
  intro o s line
  refine ⟨takesIn_diameter (by norm_num [o]) rfl _, ?_, fun h => ?_⟩
  · rw [Figure.drawnPoints_diameter, Real.cos_neg, Real.sin_neg, Real.cos_pi_div_two,
      Real.sin_pi_div_two]
    norm_num
  · have hle := h.abs_le
    rw [Real.sin_neg, Real.sin_pi_div_two] at hle
    norm_num [o] at hle

end Scope

end PictureTree
