/-
# `Proofs.Canvas.Leaves` — what becomes of a figure on its way out

A figure is drawn in some scope and leaves it inside a group.  On the way to
the import it is moved and turned by the scopes around it, from the inside
outwards, and nothing else happens to it: a scope gives every figure in its
group the transform of its end (`Exit.move`), a group is never fused with
anything, and flattening keeps the figures from left to right.
-/
import PictureTree.Proofs.Canvas.Chords
import PictureTree.Proofs.Grouping.Leaves

namespace PictureTree

variable {α : Type} [Scalar α]

/-! ## Drawing -/

/-- What holds of all figures, and is not lost when an arc becomes a chord, holds
with a further shape drawn. -/
theorem allLeaves_draw {P : Figure α → Prop} (hchord : ∀ f, P f → P f.asChord) {tolerance : α}
    {drawn : List (Shape α)} {s : Shape α} (hdrawn : Grouping.AllLeaves P drawn)
    (hs : Grouping.AllLeaves P [s]) : Grouping.AllLeaves P (draw tolerance drawn s) := by
  by_cases h : ∃ arc ∈ drawn.head?, s.Closes tolerance arc
  · obtain ⟨arc, harc, hcloses⟩ := h
    obtain ⟨rest, rfl⟩ := List.head?_eq_some_iff.mp harc
    rw [draw_of_closes hcloses]
    cases arc with
    | group ms => exact hdrawn
    | one f =>
        obtain ⟨hf, hrest⟩ := Grouping.allLeaves_cons_one.mp hdrawn
        exact Grouping.allLeaves_cons_one.mpr ⟨hchord f hf, hrest⟩
  · rw [draw_of_not_closes fun last hlast hcloses => h ⟨last, hlast, hcloses⟩]
    exact Grouping.allLeaves_append.mpr ⟨hs, hdrawn⟩

/-- The same with some figures drawn, one after the other. -/
theorem allLeaves_foldl_draw {P : Figure α → Prop} (hchord : ∀ f, P f → P f.asChord)
    {tolerance : α} {drawn : List (Shape α)} {fs : List (Figure α)}
    (hdrawn : Grouping.AllLeaves P drawn) (hfs : ∀ f ∈ fs, P f) :
    Grouping.AllLeaves P ((fs.map .one).foldl (draw tolerance) drawn) := by
  induction fs generalizing drawn with
  | nil => exact hdrawn
  | cons f fs ih =>
      obtain ⟨hf, hfs⟩ := List.forall_mem_cons.mp hfs
      have hone : Grouping.AllLeaves P [Grouping.one f] :=
        Grouping.allLeaves_cons_one.mpr ⟨hf, Grouping.allLeaves_nil⟩
      exact ih (allLeaves_draw hchord hdrawn hone) hfs

/-! ## The end of a scope -/

/-- The figure as it leaves a scope. -/
def Exit.move (e : Exit α) (f : Figure α) : Figure α :=
  match e with
  | .keep => f
  | .place position angle => (f.rotate .origin angle).translate position.x position.y
  | .turn center angle => f.rotate center angle

/-- A shape leaves a scope as its figures do. -/
theorem Exit.apply_eq_map (e : Exit α) (s : Shape α) : e.apply s = s.map e.move := by
  cases e with
  | keep =>
      cases s with
      | one f => rfl
      | group gs => exact congrArg Grouping.group (Grouping.mapAll_id gs).symm
  | place position angle => exact Grouping.map_map _ _ s
  | turn center angle => rfl

theorem Exit.leaves_apply (e : Exit α) (s : Shape α) :
    (e.apply s).leaves = s.leaves.map e.move := by
  rw [e.apply_eq_map, Grouping.leaves_map]

namespace Scope

theorem leaves_leave (s : Scope α) :
    s.leave.leaves = (Grouping.leavesOfAll s.shapes).map s.exit.move :=
  s.exit.leaves_apply (.group s.shapes)

/-- What a scope has drawn when another one has ended in it. -/
theorem shapes_emit_leave (o : Options α) (s inner : Scope α) :
    (s.emit o inner.leave).shapes
      = s.drawn.reverse ++ [inner.leave] ++ s.textFigure?.toList.map .one := by
  rw [emit_leave, leave_eq_group, shapes, List.reverse_cons]
  rfl

end Scope

end PictureTree
