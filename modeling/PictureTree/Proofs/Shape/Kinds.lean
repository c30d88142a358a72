/-
# `Proofs.Shape.Kinds` — the kind of a figure

A figure keeps its kind when it is moved, turned or reversed, so the kind says
where it comes from.  Every command draws figures of one kind
(`ShapeCommand.kind`), included pictures are a kind of their own, and no command
draws a text.
-/
import PictureTree.Shape.Drawing
import PictureTree.Shape.Inclusion

namespace PictureTree

variable {α : Type} [Scalar α]

/-! ## What keeps the kind -/

theorem Outline.kind_translate (o : Outline α) (dx dy : α) : (o.translate dx dy).kind = o.kind := by
  cases o <;> rfl

namespace Figure

/-- The kind of a figure. -/
def kind (f : Figure α) : FigureKind := f.outline.kind

theorem kind_rotate (f : Figure α) (c : Point α) (angle : α) :
    (f.rotate c angle).kind = f.kind :=
  f.outline.kind_translate _ _

theorem kind_turnBy (f : Figure α) (c : Context α) : (f.turnBy c).kind = f.kind := by
  unfold turnBy
  split
  · rfl
  · exact f.kind_rotate _ _

omit [Scalar α] in
theorem kind_reversed (f : Figure α) : f.reversed.kind = f.kind := by
  rcases f with ⟨outline, rotation, paint⟩
  cases outline <;> rfl

end Figure

/-! ## What commands draw -/

namespace ShapeCommand

/-- The kind of figure that a command draws. -/
def kind : ShapeCommand → FigureKind
  | .frame => .rectangle
  | .diamond => .rhombus
  | .triangle => .triangle
  | .ellipse => .ellipse
  | .circle | .disk => .circle
  | .wedge | .arc _ => .arc
  | .line | .segment => .polyline
  | .polygon => .polygon
  | .bezier => .bezier
  | .dot | .dots => .dot
  | .grid => .grid
  | .axes => .axes
  | .plot _ => .plot
  | .curve _ => .freehand

/-- All that is drawn, if anything is, is of one kind. -/
def Draws (k : FigureKind) (ds? : Option (Drawn α)) : Prop := ∀ ds ∈ ds?, ∀ d ∈ ds, d.1.kind = k

variable {k : FigureKind}

omit [Scalar α] in
theorem draws_none : Draws k (none : Option (Drawn α)) := nofun

omit [Scalar α] in
theorem draws_one {o : Outline α} (h : o.kind = k) (rotation : α) :
    Draws k (some [(o, rotation)]) := by
  rintro _ ⟨⟩
  exact List.forall_mem_singleton.mpr h

omit [Scalar α] in
theorem draws_bind {β : Type} (b? : Option β) {f : β → Option (Drawn α)}
    (h : ∀ b, Draws k (f b)) : Draws k (b? >>= f) := by
  cases b? with
  | none => exact draws_none
  | some b => exact h b

theorem draws_frame? (c : Context α) (a : Arguments) : Draws .rectangle (frame? c a) := by
  unfold frame?
  split
  · exact draws_none
  · exact draws_bind _ fun _ => draws_one rfl _
  · exact draws_bind _ fun _ => draws_bind _ fun _ => draws_one rfl _

theorem draws_triangle? (c : Context α) (a : Arguments) : Draws .triangle (triangle? c a) := by
  refine draws_bind _ fun base => draws_bind _ fun w => draws_bind _ fun h => ?_
  show Draws _ (some [_])
  unfold Outline.ofBase
  dsimp only
  split <;> exact draws_one rfl _

theorem draws_dots? (c : Context α) (a : Arguments) : Draws .dot (dots? c a) := by
  refine draws_bind _ fun ps => ?_
  rintro _ ⟨⟩
  exact List.forall_mem_map.mpr fun p _ => rfl

/-- A command draws figures of its kind. -/
theorem draws_outlines? (command : ShapeCommand) (c : Context α) (a : Arguments) :
    Draws command.kind (command.outlines? c a) := by
  cases command with
  | frame => exact draws_frame? c a
  | triangle => exact draws_triangle? c a
  | dots => exact draws_dots? c a
  | segment | grid | axes | dot => exact draws_bind _ fun _ => draws_one rfl _
  | circle | disk | bezier => exact draws_bind _ fun _ => draws_bind _ fun _ => draws_one rfl _
  | diamond | ellipse =>
      exact draws_bind _ fun _ => draws_bind _ fun _ => draws_bind _ fun _ => draws_one rfl _
  | wedge | arc =>
      exact draws_bind _ fun _ => draws_bind _ fun _ => draws_bind _ fun _ => draws_bind _ fun _ =>
        draws_one rfl _
  | plot =>
      exact draws_bind _ fun _ => draws_bind _ fun _ => draws_bind _ fun _ => draws_bind _ fun _ =>
        draws_bind _ fun _ => draws_bind _ fun _ => draws_one rfl _
  | line =>
      refine draws_bind _ fun ps => ?_
      split <;> exact draws_one rfl _
  | polygon | curve =>
      refine draws_bind _ fun ps => ?_
      split
      · exact draws_none
      · exact draws_none
      all_goals exact draws_one rfl _

theorem kind_finish (command : ShapeCommand) (c : Context α) (a : Arguments) (o : Outline α × α) :
    (command.finish c a o).kind = o.1.kind := by
  unfold finish
  rw [Figure.kind_turnBy]
  split
  · exact Figure.kind_reversed _
  · rfl

theorem kind_of_mem_figures? {command : ShapeCommand} {c : Context α} {palette : Palette α}
    {a : Arguments} {fs : List (Figure α)} (h : command.figures? c palette a = some fs) :
    ∀ f ∈ fs, f.kind = command.kind := by
  obtain ⟨ds, hds, rfl⟩ := Option.map_eq_some_iff.mp h
  refine List.forall_mem_map.mpr fun d hd => ?_
  rw [kind_finish]
  exact command.draws_outlines? _ a ds hds d hd

end ShapeCommand

theorem Inclusion.kind_of_figure? {units : Units α} {ps : List Param} {path : String}
    {size : Nat × Nat} {f : Figure α} (h : figure? units ps path size = some f) :
    f.kind = .picture := by
  simp only [figure?, bind, Option.bind_eq_some_iff, pure, Option.some.injEq] at h
  obtain ⟨w, -, height, -, rfl⟩ := h
  rfl

end PictureTree
