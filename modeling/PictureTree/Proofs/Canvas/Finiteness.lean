/-
# `Proofs.Canvas.Finiteness` — where an infinite number can enter

A document is drawn with finite coordinates, and most of what is computed from
them is checked.  What is not checked is listed by `Item.unchecked`, which
recurs on the items as `Item.drawIn` does:

    a shape command     the unchecked numbers of its figures
    gangle              the points and the rotation of a figure that it turns
    a relative path     the points that it reaches from the cursor
    a picture           its rotation
    the end of a scope  the points and the rotations of the figures that it
                        moves or turns

A motion computes no other numbers of a figure (`Figure.moved`): radii, sides,
steps and angles of arcs come out of it as they were.

`importSource?_finite` says that these are all the places.  If the numbers that
arise there are finite, then so is every number of the import; and if one of
the import is not, it arose there, since no other step of drawing makes one.
What carries the proof is `Scope.Finite`, which every item keeps.
-/
import Mathlib
import PictureTree.Proofs.Canvas.Leaves
import PictureTree.Proofs.Context.Settings
import PictureTree.Proofs.Shape.Finiteness
import PictureTree.Proofs.Shape.Motion
import PictureTree.Proofs.Style.Checks
import PictureTree.Scalar.Double

open scoped PictureTree.Scalar

namespace PictureTree

variable {α : Type} [Scalar α]

/-! ## Figures in motion -/

/-- The numbers of an outline are those of its anchors and those of the rest. -/
theorem Outline.allFinite_numbers_iff (hc : AllFinite (constants : List α)) (o : Outline α) :
    AllFinite o.numbers ↔
      AllFinite (Point.numbersOfAll o.anchors) ∧ AllFinite o.placeless.numbers := by
  have horigin : (Point.origin : Point α).isFinite = true := Point.isFinite_origin hc
  have hnone : AllFinite (Point.numbersOfAll ([] : List (Point α))) := allFinite_nil
  cases o with
  | polygon | polyline | freehand => exact (and_iff_left hnone).symm
  | bezier b => simp [numbers, anchors, placeless, or_imp, forall_and]
  | grid | axes => simp [numbers, anchors, placeless, Lattice.numbers, horigin]
  | _ => simp [numbers, anchors, placeless, horigin]

namespace Figure

/-- The numbers of a figure that a motion computes: its points and its rotation. -/
def moved (f : Figure α) : List α := Point.numbersOfAll f.outline.anchors ++ [f.rotation]

theorem allFinite_numbers_iff (hc : AllFinite (constants : List α)) (f : Figure α) :
    AllFinite f.numbers ↔ AllFinite f.moved ∧ AllFinite f.outline.placeless.numbers := by
  rw [numbers, moved, allFinite_append, allFinite_append, f.outline.allFinite_numbers_iff hc]
  exact and_right_comm

/-- A figure that was finite before a motion is finite behind it, if what the
motion computes is. -/
theorem finite_of_moved (hc : AllFinite (constants : List α)) {f g : Figure α}
    (h : AllFinite f.numbers) (hplaceless : g.outline.placeless = f.outline.placeless)
    (hmoved : AllFinite g.moved) : AllFinite g.numbers := by
  rw [allFinite_numbers_iff hc, hplaceless]
  exact ⟨hmoved, ((allFinite_numbers_iff hc f).mp h).2⟩

theorem placeless_turnBy (f : Figure α) (c : Context α) :
    (f.turnBy c).outline.placeless = f.outline.placeless := by
  unfold turnBy
  split
  · rfl
  · exact f.outline.placeless_translate ..

end Figure

theorem Exit.placeless_move (e : Exit α) (f : Figure α) :
    (e.move f).outline.placeless = f.outline.placeless := by
  cases e with
  | keep => rfl
  | place position angle =>
      exact ((f.rotate .origin angle).outline.placeless_translate ..).trans
        (f.outline.placeless_translate ..)
  | turn center angle => exact f.outline.placeless_translate ..

/-! ## Figures in the styles of a context -/

namespace Figure

/-- The numbers of a figure that a context computes when it turns it. -/
def turned (f : Figure α) (c : Context α) : List α :=
  if Scalar.eq c.shapeAngle 0 then [] else (f.turnBy c).moved

theorem finite_turnBy (hc : AllFinite (constants : List α)) {f : Figure α} {c : Context α}
    (h : AllFinite f.numbers) (hturned : AllFinite (f.turned c)) :
    AllFinite (f.turnBy c).numbers := by
  unfold turned at hturned
  split at hturned
  · next hzero =>
      rw [turnBy, if_pos hzero]
      exact h
  · exact finite_of_moved hc h (f.placeless_turnBy c) hturned

theorem allFinite_numbers_reversed {f : Figure α} :
    AllFinite f.reversed.numbers ↔ AllFinite f.numbers := by
  rcases f with ⟨o, rotation, paint⟩
  cases o <;> try rfl
  simp only [reversed, numbers, Outline.numbers, allFinite_append, allFinite_cons]
  constructor <;> rintro ⟨⟨hcenter, hradius, hone, hother, hnil⟩, hrotation⟩ <;>
    exact ⟨⟨hcenter, hradius, hother, hone, hnil⟩, hrotation⟩

end Figure

/-- A figure of a command before its context turns it. -/
def ShapeCommand.upright (command : ShapeCommand) (c : Context α) (a : Arguments)
    (d : Outline α × α) : Figure α :=
  let dressed := (Figure.ofOutline d.1 d.2).dress c (command.isStarred a)
  match command with
  | .arc true => dressed.reversed
  | _ => dressed

theorem ShapeCommand.finish_eq (command : ShapeCommand) (c : Context α) (a : Arguments)
    (d : Outline α × α) : command.finish c a d = (command.upright c a d).turnBy c := rfl

theorem ShapeCommand.allFinite_numbers_upright {command : ShapeCommand} {c : Context α}
    {a : Arguments} {d : Outline α × α} :
    AllFinite (command.upright c a d).numbers ↔ AllFinite (Figure.ofOutline d.1 d.2).numbers := by
  unfold upright
  split
  · exact Figure.allFinite_numbers_reversed
  · rfl

/-! ## The rounding of frames -/

namespace Setting

/-- The rounding of frames is set by no family, and its own reader keeps it finite. -/
theorem isFinite_of_read_frameArc (hc : AllFinite (constants : List α)) {r : Reading α}
    {p : Param} {x : α} (h : Setting.read r p = .ok (.frameArc x)) :
    Scalar.isFinite x = true := by
  obtain ⟨y, hy, rfl⟩ := from_of_read h
  exact Scalar.isFinite_clampUnit hc (Reading.isFinite_of_number hy)

end Setting

namespace Context

theorem isFinite_frameArc_setAll (hc : AllFinite (constants : List α)) {c : Context α}
    (h : Scalar.isFinite c.frameArc = true) (palette : Palette α) (ps : List Param) :
    Scalar.isFinite (c.setAll palette ps).frameArc = true := by
  refine setAll_keeps (P := fun c => Scalar.isFinite c.frameArc = true) ?_ h ps
  intro c p s h hread
  cases s with
  | frameArc x => exact Setting.isFinite_of_read_frameArc hc hread
  | _ => exact h

end Context

/-! ## Paths -/

/-- The points that displacements reach from a point, one after the other. -/
def Point.reached (p : Point α) : List (Point α) → List (Point α)
  | [] => []
  | v :: vs => (p + v) :: (p + v).reached vs

/-- The points of a recorded command. -/
def PathStep.points {α : Type} : PathStep α → List (Point α)
  | .segment _ start target => [start, target]
  | _ => []

/-- All points of a path, the latest one among them. -/
def Path.points {α : Type} (path : Path α) : List (Point α) :=
  path.cursor :: path.recorded.flatMap PathStep.points

/-- All points of a path are finite. -/
def Path.Finite (path : Path α) : Prop := ∀ p ∈ path.points, p.isFinite = true

/-- The points of a path command that no check has seen: those that it reaches
by displacements. -/
def PathCommand.unchecked (c : Context α) (path : Path α) : PathCommand → List (Point α)
  | .lineTo true ps => path.cursor.reached ((c.points? ps).getD [])
  | .curveTo true _ _ p => path.cursor.reached (c.point? p).toList
  | _ => []

/-- The points of merged runs are points of the commands that were merged. -/
theorem PathStep.forall_points_runsFrom {α : Type} {P : Point α → Prop}
    {current : Option (PathRun α)} {steps : List (PathStep α)}
    (hcurrent : ∀ run ∈ current, ∀ p ∈ run.points, P p)
    (hsteps : ∀ step ∈ steps, ∀ p ∈ step.points, P p) :
    ∀ run ∈ runsFrom current steps, ∀ p ∈ run.points, P p := by
  fun_induction runsFrom current steps with
  | case1 current => simpa using hcurrent
  | case2 current steps ih =>
      rw [List.forall_mem_cons] at hsteps
      exact List.forall_mem_append.mpr ⟨by simpa using hcurrent, ih (by simp) hsteps.2⟩
  | case3 current steps ih =>
      rw [List.forall_mem_cons] at hsteps
      refine List.forall_mem_append.mpr ⟨?_, ih (by simp) hsteps.2⟩
      simpa [PathRun.closed] using hcurrent
  | case4 kind start target steps ih =>
      rw [List.forall_mem_cons] at hsteps
      refine ih ?_ hsteps.2
      simpa [PathRun.ofSegment, points] using hsteps.1
  | case5 start target steps run ih =>
      rw [List.forall_mem_cons] at hsteps
      refine ih (fun extended hextended => ?_) hsteps.2
      obtain rfl := Option.some.inj hextended
      refine List.forall_mem_append.mpr ⟨hcurrent run rfl, List.forall_mem_singleton.mpr ?_⟩
      exact hsteps.1 target (by simp [points])
  | case6 kind start target steps run hkind ih =>
      rw [List.forall_mem_cons] at hsteps
      refine List.forall_mem_cons.mpr ⟨hcurrent run rfl, ih ?_ hsteps.2⟩
      simpa [PathRun.ofSegment, points] using hsteps.1

namespace Path

theorem finite_moveTo {path : Path α} (h : path.Finite) {p : Point α} (hp : p.isFinite = true) :
    (path.moveTo p).Finite := by
  simp only [Finite, points, List.forall_mem_cons] at h ⊢
  exact ⟨hp, h.2⟩

theorem finite_segmentTo {path : Path α} (h : path.Finite) {p : Point α} (hp : p.isFinite = true)
    (kind : SegmentKind) : (path.segmentTo kind p).Finite := by
  simp only [Finite, points, List.forall_mem_cons] at h ⊢
  refine ⟨hp, List.forall_mem_append.mpr ⟨?_, h.2⟩⟩
  simp [PathStep.points, hp, h.1]

theorem finite_close {path : Path α} (h : path.Finite) : path.close.Finite := h

/-- Segments to points that are finite, each of them seen from the one before. -/
theorem finite_foldl_lineTo {path : Path α} (h : path.Finite) {relative : Bool}
    {qs : List (Point α)} (hqs : ∀ p ∈ if relative then path.cursor.reached qs else qs,
      p.isFinite = true) :
    (qs.foldl (fun path q => path.lineTo (if relative then path.cursor + q else q)) path).Finite := by
  induction qs generalizing path with
  | nil => exact h
  | cons q qs ih =>
      cases relative with
      | false =>
          obtain ⟨hq, hqs⟩ := List.forall_mem_cons.mp hqs
          exact ih (finite_segmentTo h hq .lines) hqs
      | true =>
          obtain ⟨hq, hqs⟩ := List.forall_mem_cons.mp hqs
          exact ih (finite_segmentTo h hq .lines) hqs

theorem finite_trace? {c : Context α} {path path' : Path α} {k : PathCommand} (h : path.Finite)
    (hu : ∀ p ∈ k.unchecked c path, p.isFinite = true)
    (htrace : Scope.trace? c path k = some path') : path'.Finite := by
  cases k with
  | moveTo p =>
      obtain ⟨q, hq, rfl⟩ := Option.map_eq_some_iff.mp htrace
      exact finite_moveTo h (Context.isFinite_of_point? hq)
  | lineTo relative ps =>
      obtain ⟨qs, hqs, rfl⟩ := Option.map_eq_some_iff.mp htrace
      refine finite_foldl_lineTo h ?_
      cases relative with
      | false => exact Context.isFinite_of_points? hqs
      | true => simpa [PathCommand.unchecked, hqs] using hu
  | curveTo relative first second last =>
      obtain ⟨q, hq, rfl⟩ := Option.map_eq_some_iff.mp htrace
      refine finite_segmentTo h ?_ .curves
      cases relative with
      | false => exact Context.isFinite_of_point? hq
      | true => simpa [PathCommand.unchecked, hq, Point.reached] using hu
  | close =>
      obtain rfl := Option.some.inj htrace
      exact finite_close h

theorem finite_runs {path : Path α} (h : path.Finite) :
    ∀ run ∈ path.runs, ∀ p ∈ run.points, p.isFinite = true := by
  refine PathStep.forall_points_runsFrom (by simp) fun step hstep p hp => h p ?_
  exact List.mem_cons_of_mem _
    (List.mem_flatMap.mpr ⟨step, List.mem_reverse.mp hstep, hp⟩)

end Path

/-! ## Drawing shapes -/

/-- Every figure at any depth of some shapes is finite. -/
def FiniteShapes (gs : List (Shape α)) : Prop := ∀ f ∈ Grouping.leavesOfAll gs, AllFinite f.numbers

@[simp] theorem finiteShapes_nil : FiniteShapes ([] : List (Shape α)) := Grouping.allLeaves_nil

@[simp] theorem finiteShapes_cons_one {f : Figure α} {gs : List (Shape α)} :
    FiniteShapes (.one f :: gs) ↔ AllFinite f.numbers ∧ FiniteShapes gs :=
  Grouping.allLeaves_cons_one

@[simp] theorem finiteShapes_cons_group {ms gs : List (Shape α)} :
    FiniteShapes (.group ms :: gs) ↔ FiniteShapes ms ∧ FiniteShapes gs :=
  Grouping.allLeaves_cons_group

@[simp] theorem finiteShapes_append {gs hs : List (Shape α)} :
    FiniteShapes (gs ++ hs) ↔ FiniteShapes gs ∧ FiniteShapes hs := Grouping.allLeaves_append

@[simp] theorem finiteShapes_reverse {gs : List (Shape α)} :
    FiniteShapes gs.reverse ↔ FiniteShapes gs := Grouping.allLeaves_reverse

@[simp] theorem finiteShapes_map_one {fs : List (Figure α)} :
    FiniteShapes (fs.map .one) ↔ ∀ f ∈ fs, AllFinite f.numbers := Grouping.allLeaves_map_one

theorem Figure.finite_asChord (f : Figure α) (h : AllFinite f.numbers) :
    AllFinite f.asChord.numbers := by
  unfold asChord
  split
  · next a ha =>
      simp only [numbers, ha, Outline.numbers] at h
      exact h
  · exact h

theorem finite_draw {tolerance : α} {drawn : List (Shape α)} {s : Shape α}
    (hdrawn : FiniteShapes drawn) (hs : FiniteShapes [s]) :
    FiniteShapes (draw tolerance drawn s) :=
  allLeaves_draw Figure.finite_asChord hdrawn hs

/-! ## Scopes -/

/-- A scope with no number infinite or "not a number": its figures, its path,
and the rounding that it gives to frames. -/
structure Scope.Finite (s : Scope α) : Prop where
  frameArc : Scalar.isFinite s.context.frameArc = true
  drawn : FiniteShapes s.drawn
  path : ∀ path ∈ s.path, path.Finite

namespace Scope

/-- The numbers that a command brings into a scope without a check. -/
def unchecked (o : Options α) (palette : Palette α) (s : Scope α) : Command → List α
  | .shape command a =>
      let c := ShapeCommand.context s.context palette a
      ((command.outlines? c a).getD []).flatMap fun d =>
        (Figure.ofOutline d.1 d.2).unchecked ++ (command.upright c a d).turned c
  | .includePicture params path => (picture? o s.context params path).toList.flatMap Figure.unchecked
  | .path k => s.path.toList.flatMap fun path => Point.numbersOfAll (k.unchecked s.context path)
  | _ => []

/-- A merged run of a custom path before its context turns it. -/
def uprightRun (s : Scope α) (run : PathRun α) : Figure α :=
  (Figure.ofOutline (.freehand run) 0).dress s.context s.starred

/-- The numbers that the end of a scope computes when it turns the runs of its path. -/
def uncheckedRuns (s : Scope α) : ScopeKind → List α
  | .custom => s.path.toList.flatMap fun path =>
      path.runs.flatMap fun run => (s.uprightRun run).turned s.context
  | _ => []

/-- The numbers that a scope computes for the figures that it moves or turns when
it is left. -/
def uncheckedExit (s : Scope α) : List α :=
  match s.exit with
  | .keep => []
  | _ => s.leave.leaves.flatMap Figure.moved

variable {o : Options α} {palette : Palette α} {s : Scope α}

theorem finite_emit (h : s.Finite) {shape : Shape α} (hshape : FiniteShapes [shape]) :
    (s.emit o shape).Finite :=
  ⟨h.frameArc, finite_draw h.drawn hshape, h.path⟩

theorem finite_emitAll (h : s.Finite) {fs : List (Figure α)} (hfs : ∀ f ∈ fs, AllFinite f.numbers) :
    (s.emitAll o fs).Finite := by
  induction fs generalizing s with
  | nil => exact h
  | cons f fs ih =>
      obtain ⟨hf, hfs⟩ := List.forall_mem_cons.mp hfs
      exact ih (finite_emit h (finiteShapes_cons_one.mpr ⟨hf, finiteShapes_nil⟩)) hfs

theorem finite_write (h : s.Finite) (word : String) : (s.write word).Finite := by
  unfold write
  split
  · exact h
  · exact ⟨h.frameArc, h.drawn, h.path⟩

theorem finite_chooseSpec (h : s.Finite) (spec : ColorSpec) : (s.chooseSpec palette spec).Finite := by
  unfold chooseSpec
  split
  · exact ⟨h.frameArc, h.drawn, h.path⟩
  · exact h

theorem finite_figures? (hc : AllFinite (constants : List α)) (h : s.Finite)
    {command : ShapeCommand} {a : Arguments} (hu : AllFinite (s.unchecked o palette (.shape command a)))
    {fs : List (Figure α)} (hfs : command.figures? s.context palette a = some fs) :
    ∀ f ∈ fs, AllFinite f.numbers := by
  obtain ⟨ds, hds, rfl⟩ := Option.map_eq_some_iff.mp hfs
  have harc : Scalar.isFinite (ShapeCommand.context s.context palette a).frameArc = true :=
    Context.isFinite_frameArc_setAll hc h.frameArc palette a.params
  refine List.forall_mem_map.mpr fun d hd => ?_
  have hd' : AllFinite ((Figure.ofOutline d.1 d.2).unchecked ++
      (command.upright (ShapeCommand.context s.context palette a) a d).turned
        (ShapeCommand.context s.context palette a)) := fun x hx =>
    hu x (List.mem_flatMap.mpr ⟨d, by rwa [hds], hx⟩)
  rw [allFinite_append] at hd'
  rw [ShapeCommand.finish_eq]
  refine Figure.finite_turnBy hc (ShapeCommand.allFinite_numbers_upright.mpr ?_) hd'.2
  exact ShapeCommand.checked_of_outlines? hc harc hds d hd hd'.1

theorem finite_picture? (hc : AllFinite (constants : List α)) {params : List Param} {path : String}
    {f : Figure α} (hf : picture? o s.context params path = some f) (hu : AllFinite f.unchecked) :
    AllFinite f.numbers := by
  simp only [picture?, Inclusion.figure?, bind, Option.bind_eq_some_iff, pure,
    Option.some.injEq] at hf
  obtain ⟨size, -, width, hwidth, height, hheight, rfl⟩ := hf
  refine ShapeCommand.checked_singleton (fun h => by cases h) (fun _ => ?_) _
    List.mem_cons_self hu
  simp [Outline.numbers, Point.isFinite_origin hc, Context.isFinite_of_checked? hwidth,
    Context.isFinite_of_checked? hheight]

/-- A command keeps a scope finite, if what it brings without a check is. -/
theorem finite_obey (hc : AllFinite (constants : List α)) (h : s.Finite) (k : Command)
    (hu : AllFinite (s.unchecked o palette k)) : (s.obey o palette k).Finite := by
  cases k with
  | set params =>
      exact ⟨Context.isFinite_frameArc_setAll hc h.frameArc palette params, h.drawn, h.path⟩
  | shape command a =>
      refine finite_emitAll h fun f hf => ?_
      cases hfs : command.figures? s.context palette a with
      | none => simp [hfs] at hf
      | some fs => exact finite_figures? hc h hu hfs f (by simpa [hfs] using hf)
  | includePicture params path =>
      refine finite_emitAll h fun f hf => ?_
      have hpicture := Option.mem_toList.mp hf
      exact finite_picture? hc hpicture fun x hx => hu x (List.mem_flatMap.mpr ⟨f, hf, hx⟩)
  | path k =>
      refine ⟨h.frameArc, h.drawn, fun path' hpath' => ?_⟩
      obtain ⟨path, hpath, rfl⟩ := Option.map_eq_some_iff.mp hpath'
      cases htrace : trace? s.context path k with
      | none => exact h.path path hpath
      | some after =>
          refine Path.finite_trace? (h.path path hpath) ?_ htrace
          refine allFinite_numbersOfAll.mp fun x hx => hu x ?_
          exact List.mem_flatMap.mpr ⟨path, Option.mem_toList.mpr hpath, hx⟩
  | defineColor | newColor => exact h
  | framedBox name text | text word => exact finite_write h _
  | useColor spec => exact finite_chooseSpec h spec
  | textColor spec text => exact finite_write (finite_chooseSpec h spec) text

theorem finite_begin (hc : AllFinite (constants : List α)) {outer : Context α}
    (h : Scalar.isFinite outer.frameArc = true) (head : ScopeHead) :
    (begin palette outer head).Finite := by
  have hchild : Scalar.isFinite outer.child.frameArc = true := h
  have hset := fun params => Context.isFinite_frameArc_setAll hc hchild palette params
  cases head with
  | picture starred params corners =>
      exact ⟨hset params, finiteShapes_nil, by simp [begin, ofContext]⟩
  | block => exact ⟨h, finiteShapes_nil, by simp [begin, ofContext]⟩
  | custom starred params =>
      refine ⟨hset params, finiteShapes_nil, ?_⟩
      intro path hpath
      obtain rfl := Option.some.inj hpath
      exact List.forall_mem_singleton.mpr (Point.isFinite_origin hc)
  | place starred refPoint angle position =>
      exact ⟨h, finiteShapes_nil, by simp [begin, ofContext]⟩
  | turn params center angle =>
      exact ⟨hset params, finiteShapes_nil, by simp [begin, ofContext]⟩

/-- The end of a scope draws finite runs, if those that it turns are. -/
theorem finite_ended (hc : AllFinite (constants : List α)) (h : s.Finite) {kind : ScopeKind}
    (hu : AllFinite (s.uncheckedRuns kind)) : (s.ended o kind).Finite := by
  cases kind with
  | picture | block | place | turn => exact h
  | custom =>
      unfold ended flush
      cases hpath : s.path with
      | none => exact h
      | some path =>
          have hruns : ∀ f ∈ path.runs.map s.runFigure, AllFinite f.numbers := by
            refine List.forall_mem_map.mpr fun run hrun => ?_
            have hpoints := Path.finite_runs (h.path path hpath) run hrun
            have hupright : AllFinite (s.uprightRun run).numbers := allFinite_append.mpr
              ⟨allFinite_numbersOfAll.mpr hpoints, List.forall_mem_singleton.mpr
                (allFinite_cons.mp hc).1⟩
            refine Figure.finite_turnBy hc hupright fun x hx => hu x ?_
            exact List.mem_flatMap.mpr ⟨path, Option.mem_toList.mpr hpath,
              List.mem_flatMap.mpr ⟨run, hrun, hx⟩⟩
          have hflushed := finite_emitAll (o := o) h hruns
          exact ⟨hflushed.frameArc, hflushed.drawn, by simp⟩

theorem finite_shapes (hc : AllFinite (constants : List α)) (h : s.Finite) :
    FiniteShapes s.shapes := by
  have htext : ∀ f ∈ s.textFigure?.toList, AllFinite f.numbers := by
    intro f hf
    rw [Option.mem_toList, textFigure?] at hf
    split at hf
    · cases hf
    · obtain rfl := Option.some.inj hf
      exact allFinite_append.mpr ⟨allFinite_numbers.mpr (Point.isFinite_origin hc),
        List.forall_mem_singleton.mpr (allFinite_cons.mp hc).1⟩
  exact finiteShapes_append.mpr
    ⟨finiteShapes_reverse.mpr h.drawn, finiteShapes_map_one.mpr htext⟩

/-- What a scope leaves behind is finite, if what it moves or turns is. -/
theorem finite_leave (hc : AllFinite (constants : List α)) (h : s.Finite)
    (hu : AllFinite s.uncheckedExit) : FiniteShapes [s.leave] := by
  have hshapes := finite_shapes hc h
  have hmoved : ∀ f ∈ Grouping.leavesOfAll s.shapes, s.exit ≠ .keep →
      AllFinite (s.exit.move f).moved := by
    intro f hf hexit x hx
    have hleaf : s.exit.move f ∈ s.leave.leaves := by
      rw [leaves_leave]
      exact List.mem_map_of_mem hf
    unfold uncheckedExit at hu
    split at hu
    · contradiction
    · exact hu x (List.mem_flatMap.mpr ⟨_, hleaf, hx⟩)
  have hleaves : Grouping.leavesOfAll [s.leave] = s.leave.leaves := List.append_nil _
  rw [FiniteShapes, hleaves, leaves_leave]
  refine List.forall_mem_map.mpr fun f hf => ?_
  by_cases hexit : s.exit = .keep
  · rw [hexit]
    exact hshapes f hf
  · exact Figure.finite_of_moved hc (hshapes f hf) (s.exit.placeless_move f) (hmoved f hf hexit)

end Scope

/-! ## Items -/

mutual

/-- The numbers that an item brings into the scope that it stands in without a
check. -/
def Item.unchecked (o : Options α) : Item → Palette α × Scope α → List α
  | .scope head items, (p, s) =>
      let inside := (Item.drawAllIn o items (p, .begin p s.context head)).2
      Item.uncheckedAll o items (p, .begin p s.context head) ++ inside.uncheckedRuns head.kind ++
        (inside.ended o head.kind).uncheckedExit
  | .command k, (p, s) => s.unchecked o p k

/-- The numbers that some items bring into the scope that they stand in without
a check. -/
def Item.uncheckedAll (o : Options α) : List Item → Palette α × Scope α → List α
  | [], _ => []
  | item :: items, h => item.unchecked o h ++ Item.uncheckedAll o items (item.drawIn o h)

end

mutual

/-- An item keeps the scope that it stands in finite, if what it brings without
a check is. -/
theorem Item.finite_drawIn (o : Options α) (hc : AllFinite (constants : List α)) :
    ∀ (item : Item) (h : Palette α × Scope α), h.2.Finite → AllFinite (item.unchecked o h) →
      (item.drawIn o h).2.Finite
  | .command k, (p, s), hs, hu => s.finite_obey hc hs k hu
  | .scope head items, (p, s), hs, hu => by
      simp only [Item.unchecked, allFinite_append] at hu
      obtain ⟨⟨hitems, hruns⟩, hexit⟩ := hu
      have hinside := Item.finite_drawAllIn o hc items (p, .begin p s.context head)
        (Scope.finite_begin hc hs.frameArc head) hitems
      exact Scope.finite_emit hs (Scope.finite_leave hc (Scope.finite_ended hc hinside hruns) hexit)

theorem Item.finite_drawAllIn (o : Options α) (hc : AllFinite (constants : List α)) :
    ∀ (items : List Item) (h : Palette α × Scope α), h.2.Finite →
      AllFinite (Item.uncheckedAll o items h) → (Item.drawAllIn o items h).2.Finite
  | [], _, hs, _ => hs
  | item :: items, h, hs, hu => by
      obtain ⟨hitem, hitems⟩ := allFinite_append.mp hu
      exact Item.finite_drawAllIn o hc items _ (Item.finite_drawIn o hc item h hs hitem) hitems

end

/-! ## Documents -/

/-- Every source that parses is imported, and every number of every figure of
the import, at any depth, is finite if the numbers are that its commands compute
without a check. -/
theorem importSource?_finite (o : Options α) (palette : Palette α) {source : String}
    {items : List Item} (hitems : Item.ofSource? source = some items)
    (hc : AllFinite (constants : List α))
    (hu : AllFinite (Item.uncheckedAll o items (palette, .ofContext (.initial o.ppc)))) :
    ∃ shapes after, importSource? o palette source = some (shapes, after) ∧
      ∀ f ∈ Grouping.leavesOfAll shapes, AllFinite f.numbers := by
  let start : Palette α × Scope α := (palette, .ofContext (.initial o.ppc))
  have hstart : start.2.Finite :=
    ⟨(allFinite_cons.mp hc).1, finiteShapes_nil, by simp [start, Scope.ofContext]⟩
  refine ⟨_, _, by rw [importSource?, hitems]; rfl, ?_⟩
  rw [Canvas.finish_drawItems, Grouping.leavesOfAll_flatten]
  exact Scope.finite_shapes hc (Item.finite_drawAllIn o hc items start hstart hu)

/-- A custom path that goes along a displacement, inside a pair of braces: every
number that its import computes without a check is finite. -/
theorem importSource?_finite_relative_line :
    let source := "\x7b\\pscustom\x7b\\rlineto(1,2)\x7d\x7d"
    let corner : Coord := .cartesian ⟨.decimal false 1 0, none⟩ ⟨.decimal false 2 0, none⟩
    let items : List Item :=
      [.scope .block [.scope (.custom false []) [.command (.path (.lineTo true [corner]))]]]
    let start : Palette Float × Scope Float :=
      (.predefined, .ofContext (.initial Options.standard.ppc))
    Item.ofSource? source = some items ∧ AllFinite (constants : List Float) ∧
      AllFinite (Item.uncheckedAll .standard items start) ∧
      ∃ shapes after, importSource? .standard .predefined source = some (shapes, after) ∧
        ∀ f ∈ Grouping.leavesOfAll shapes, AllFinite (f.numbers : List Float) := by
  intro source corner items start
  have hitems : Item.ofSource? source = some items := by cbv
  have hc : AllFinite (constants : List Float) := by decide
  have hu : AllFinite (Item.uncheckedAll .standard items start) := by decide +kernel
  exact ⟨hitems, hc, hu, importSource?_finite .standard .predefined hitems hc hu⟩

/-- An angle of so many degrees is a finite number, but the rotation by it is
not: the dot that it turns is not dropped. -/
theorem importSource?_dot_turned_beyond_double :
    ∃ shapes after, importSource? (.standard : Options Float) .predefined
        "\\psdot[gangle=1e308](1,0)" = some (shapes, after) ∧
      ∃ f ∈ Grouping.leavesOfAll shapes, ¬ AllFinite f.numbers := by
  have hrotation : ((importSource? (.standard : Options Float) .predefined
      "\\psdot[gangle=1e308](1,0)").map fun r =>
        (Grouping.leavesOfAll r.1).any fun f => !Scalar.isFinite f.rotation) = some true := by
    decide +kernel
  obtain ⟨⟨shapes, after⟩, himport, hany⟩ := Option.map_eq_some_iff.mp hrotation
  obtain ⟨f, hf, hinfinite⟩ := List.any_eq_true.mp hany
  refine ⟨shapes, after, himport, f, hf, fun hfinite => ?_⟩
  have : Scalar.isFinite f.rotation = true := hfinite f.rotation (by simp [Figure.numbers])
  simp [this] at hinfinite

end PictureTree
