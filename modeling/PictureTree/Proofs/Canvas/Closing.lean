/-
# `Proofs.Canvas.Closing` — scopes that are still open at the end

A scope ends at its exit, or, if that never comes, when the canvas is finished.
The two differ in one point.  The exit of a custom path draws the runs of its
path into its scope and ends it then; finishing only ends it.

    exit      draws the runs, ends the scope
    finish    ends the scope

So what is lost is what a custom path has collected.  `finish_eq_finish_exits_iff`
says that nothing else is: after any part of a document, finishing gives what the
missing exits and finishing give, if and only if no open scope has a run that is
not drawn yet.

For one direction ending is the same step; for the other the figures are
counted.  An exit and an end both hand all figures of a scope to the scope
around it, and the exit adds one for each run.
-/
import Mathlib
import PictureTree.Proofs.Canvas.Leaves
import PictureTree.Scalar.Double

namespace PictureTree

/-! ## The scopes that some events leave open -/

namespace Event

/-- The kinds of the open scopes after an event, the innermost first. -/
def kindsAfter (kinds : List ScopeKind) : Event → List ScopeKind
  | .enter head => head.kind :: kinds
  | .exit _ => kinds.tail
  | .command _ => kinds

/-- The exits of the scopes that some events leave open, the innermost first. -/
def missingExits (events : List Event) : List Event := (events.foldl kindsAfter []).map .exit

end Event

variable {α : Type} [Scalar α]

namespace Scope

/-- The figures of a scope, at any depth, its text among them. -/
def leaves (s : Scope α) : List (Figure α) := Grouping.leavesOfAll s.shapes

/-- How many figures a scope has. -/
def count (s : Scope α) : Nat := s.leaves.length

/-! ## One scope -/

/-- No command begins a path. -/
theorem path_obey_of_none {s : Scope α} (h : s.path = none) (o : Options α) (palette : Palette α)
    (c : Command) : (s.obey o palette c).path = none := by
  obtain ⟨context, goOn, hobey⟩ := s.exists_obey_eq o palette c
  rw [hobey, h]
  rfl

/-- Only a custom path begins with a path. -/
theorem path_begin_of_ne {head : ScopeHead} (h : head.kind ≠ .custom) (palette : Palette α)
    (outer : Context α) : (begin palette outer head).path = none := by
  cases head with
  | custom => exact absurd rfl h
  | picture | block | place | turn => rfl

theorem leaves_eq (s : Scope α) :
    s.leaves = Grouping.leavesOfAll s.drawn.reverse ++ s.textFigure?.toList := by
  rw [leaves, shapes, Grouping.leavesOfAll_append, Grouping.leavesOfAll_map_one]

theorem count_emit_leave (o : Options α) (s inner : Scope α) :
    (s.emit o inner.leave).count = s.count + inner.count := by
  have hinner : inner.leave.leaves.length = inner.count :=
    (congrArg List.length inner.leaves_leave).trans (List.length_map _)
  have hleaves : (s.emit o inner.leave).leaves
      = Grouping.leavesOfAll s.drawn.reverse ++ inner.leave.leaves ++ s.textFigure?.toList := by
    rw [leaves, shapes_emit_leave, Grouping.leavesOfAll_append, Grouping.leavesOfAll_append,
      Grouping.leavesOfAll_map_one]
    exact congrArg (_ ++ · ++ _) (List.append_nil _)
  rw [count, hleaves, count, leaves_eq s]
  simp only [List.length_append, hinner]
  omega

/-- Figures that are no lines close no arc, so each of them is drawn. -/
theorem drawn_emitAll_of_not_lines (o : Options α) (s : Scope α) {fs : List (Figure α)}
    (h : ∀ f ∈ fs, f.kind ≠ .polyline) :
    (s.emitAll o fs).drawn = (fs.map .one).reverse ++ s.drawn := by
  rw [drawn_emitAll]
  induction fs generalizing s with
  | nil => rfl
  | cons f fs ih =>
      obtain ⟨hf, hfs⟩ := List.forall_mem_cons.mp h
      have hdraw : PictureTree.draw o.chordTolerance s.drawn (.one f) = .one f :: s.drawn := by
        refine draw_of_not_closes fun last _ hcloses => ?_
        obtain ⟨-, g, -, p, q, -, hline, -, hg, -⟩ := hcloses
        obtain rfl := Grouping.one.inj hline
        exact hf (congrArg Outline.kind hg)
      rw [List.map_cons, List.foldl_cons, hdraw]
      have hrest := ih { s with drawn := .one f :: s.drawn } hfs
      rw [hrest]
      simp

/-- The exit of a custom path draws the runs of its path behind everything else. -/
theorem shapes_ended_custom (o : Options α) (s : Scope α) :
    (s.ended o .custom).shapes
      = s.drawn.reverse ++ (s.lastFigures .custom).map .one ++ s.textFigure?.toList.map .one := by
  have hlines : ∀ f ∈ s.lastFigures .custom, f.kind ≠ .polyline := fun f hf => by
    rw [kind_of_mem_lastFigures hf]
    decide
  have hdrawn : (s.ended o .custom).drawn
      = ((s.lastFigures .custom).map .one).reverse ++ s.drawn := by
    rw [drawn_ended, ← drawn_emitAll, drawn_emitAll_of_not_lines o s hlines]
  have htext : (s.ended o .custom).textFigure? = s.textFigure? := by
    rw [ended_eq]
    rfl
  rw [shapes, hdrawn, htext, List.reverse_append, List.reverse_reverse]

/-- The exit of a scope draws what its path has collected, and its end does not. -/
theorem count_ended (o : Options α) {s : Scope α} {kind : ScopeKind}
    (h : kind ≠ .custom → s.path = none) :
    (s.ended o kind).count = s.count + (undrawn s.path).length := by
  cases kind with
  | picture | block | place | turn =>
      have hpath : s.path = none := h (by decide)
      simp [ended, undrawn, hpath]
  | custom =>
      have hlength : (s.lastFigures .custom).length = (undrawn s.path).length := List.length_map _
      rw [count, leaves, shapes_ended_custom, count, leaves_eq]
      simp only [Grouping.leavesOfAll_append, Grouping.leavesOfAll_map_one, List.length_append,
        hlength]
      omega

/-- An exit of a scope whose path has no run left is its end. -/
theorem leave_ended {o : Options α} {s : Scope α} (h : undrawn s.path = []) (kind : ScopeKind) :
    (s.ended o kind).leave = s.leave := by
  cases kind with
  | picture | block | place | turn => rfl
  | custom =>
      cases hpath : s.path with
      | none => simp [ended, flush, hpath]
      | some path =>
          have hruns : path.runs = [] := by simpa [undrawn, hpath] using h
          simp only [ended, flush, hpath, hruns]
          rfl

end Scope

namespace Canvas

/-! ## All open scopes -/

/-- The paths of the open scopes, the innermost first. -/
def paths (c : Canvas α) : List (Option (Path α)) := c.opened.map Scope.path

/-- How many figures a canvas has in all its scopes. -/
def count (c : Canvas α) : Nat := (c.scopes.flatMap Scope.leaves).length

/-- The open scopes of these kinds: none but a custom path has a path. -/
abbrev HasKinds (c : Canvas α) (kinds : List ScopeKind) : Prop :=
  List.Forall₂ (fun kind path => kind ≠ .custom → path = none) kinds c.paths

theorem count_push (c : Canvas α) (s : Scope α) : (c.push s).count = s.count + c.count :=
  List.length_append

/-- The canvas with a further group in its innermost scope, that of a scope that
has ended. -/
def receive (o : Options α) (c : Canvas α) (s : Scope α) : Canvas α :=
  c.put (c.palette, c.innermost.emit o s.leave)

/-- What is received are figures, and no path. -/
theorem paths_receive (o : Options α) (c : Canvas α) (s : Scope α) :
    (c.receive o s).paths = c.paths := by
  rcases c with ⟨p, root, - | ⟨around, outer⟩⟩ <;> rfl

theorem depth_receive (o : Options α) (c : Canvas α) (s : Scope α) :
    (c.receive o s).depth = c.depth := depth_put ..

theorem count_receive (o : Options α) (c : Canvas α) (s : Scope α) :
    (c.receive o s).count = c.count + s.count := by
  have hemit := Scope.count_emit_leave o c.innermost s
  rw [receive, count, scopes_put, count, scopes_eq c]
  simp only [List.flatMap_cons, List.tail_cons, List.length_append, Scope.count] at hemit ⊢
  omega

/-- Finishing hands the innermost scope on as it is. -/
theorem close_push (o : Options α) (c : Canvas α) (s : Scope α) :
    (c.push s).close o = c.receive o s := by
  show c.change (fun around => around.emit o s.leave) = _
  exact change_eq_put c _

/-- An exit hands the innermost scope on after its last figures are drawn. -/
theorem exit_push (o : Options α) (c : Canvas α) (s : Scope α) (kind : ScopeKind) :
    (c.push s).step o (.exit kind) = c.receive o (s.ended o kind) :=
  step_exit_push o c c.palette s kind

/-- The exit of a scope adds a figure for each run that was not drawn. -/
theorem count_exit_push (o : Options α) (c : Canvas α) {s : Scope α} {kind : ScopeKind}
    (h : kind ≠ .custom → s.path = none) :
    ((c.push s).step o (.exit kind)).count = (c.push s).count + (Scope.undrawn s.path).length := by
  rw [exit_push, count_receive, Scope.count_ended o h, count_push]
  omega

namespace HasKinds

variable {c : Canvas α} {kinds : List ScopeKind}

/-- Every event keeps the account of the kinds. -/
theorem step (h : c.HasKinds kinds) (o : Options α) (e : Event) :
    (c.step o e).HasKinds (e.kindsAfter kinds) := by
  rcases c with ⟨p, root, - | ⟨s, outer⟩⟩
  · cases h
    cases e with
    | enter head => exact .cons (fun hne => Scope.path_begin_of_ne hne p _) .nil
    | exit kind => cases kind <;> exact .nil
    | command k => exact .nil
  · cases h with
    | cons hpath houter =>
        cases e with
        | enter head =>
            exact .cons (fun hne => Scope.path_begin_of_ne hne p _) (.cons hpath houter)
        | exit kind =>
            have hstep : Canvas.step o ⟨p, root, s :: outer⟩ (.exit kind)
                = receive o ⟨p, root, outer⟩ (s.ended o kind) :=
              exit_push o ⟨p, root, outer⟩ s kind
            rw [HasKinds, hstep, paths_receive]
            exact houter
        | command k =>
            exact .cons (fun hne => Scope.path_obey_of_none (hpath hne) o p k) houter

theorem run (h : c.HasKinds kinds) (o : Options α) (events : List Event) :
    (c.run o events).HasKinds (events.foldl Event.kindsAfter kinds) := by
  induction events generalizing c kinds with
  | nil => exact h
  | cons e events ih => exact ih (h.step o e)

omit [Scalar α] in
/-- Open scopes come with a kind each. -/
theorem exists_push {kind : ScopeKind} (h : c.HasKinds (kind :: kinds)) :
    ∃ (outer : Canvas α) (s : Scope α), c = outer.push s ∧ (kind ≠ .custom → s.path = none) ∧
      outer.HasKinds kinds := by
  rcases c with ⟨p, root, - | ⟨s, opened⟩⟩
  · cases h
  · cases h with
    | cons hpath houter => exact ⟨⟨p, root, opened⟩, s, rfl, hpath, houter⟩

omit [Scalar α] in
theorem opened_eq_nil (h : c.HasKinds []) : c.opened = [] :=
  List.map_eq_nil_iff.mp (List.forall₂_nil_left_iff.mp h)

end HasKinds

/-! ## Ending all open scopes -/

/-- With the exits of all its open scopes a canvas has its figures in the scope of
the document, and one more for each run that was not drawn. -/
theorem count_run_exits (o : Options α) {c : Canvas α} {kinds : List ScopeKind}
    (h : c.HasKinds kinds) :
    (c.run o (kinds.map .exit)).opened = [] ∧
      (c.run o (kinds.map .exit)).count
        = c.count + (c.paths.flatMap Scope.undrawn).length := by
  induction kinds generalizing c with
  | nil => exact ⟨h.opened_eq_nil, by simp [run_nil, paths, h.opened_eq_nil]⟩
  | cons kind kinds ih =>
      obtain ⟨outer, s, rfl, hpath, -⟩ := h.exists_push
      obtain ⟨hopened, hcount⟩ := ih (h.step o (.exit kind))
      rw [List.map_cons, run_cons]
      refine ⟨hopened, hcount.trans ?_⟩
      have hpaths : (outer.push s).paths = s.path :: outer.paths := rfl
      rw [count_exit_push o outer hpath, exit_push, paths_receive, hpaths, List.flatMap_cons,
        List.length_append]
      omega

/-- Where every run is drawn, exits and ends are the same. -/
theorem run_exits_eq_closeAll (o : Options α) {c : Canvas α} {kinds : List ScopeKind}
    (h : c.HasKinds kinds) (hdrawn : ∀ path ∈ c.paths, Scope.undrawn path = []) :
    c.run o (kinds.map .exit) = c.closeAll o := by
  induction kinds generalizing c with
  | nil =>
      rw [closeAll, depth, h.opened_eq_nil]
      rfl
  | cons kind kinds ih =>
      obtain ⟨outer, s, rfl, hpath, -⟩ := h.exists_push
      have hdrawn' : Scope.undrawn s.path = [] ∧ ∀ path ∈ outer.paths, Scope.undrawn path = [] :=
        List.forall_mem_cons.mp hdrawn
      have hstep : (outer.push s).step o (.exit kind) = outer.receive o s := by
        rw [exit_push, receive, Scope.leave_ended hdrawn'.1, receive]
      have hkinds : (outer.receive o s).HasKinds kinds := hstep ▸ h.step o (.exit kind)
      have hpaths := paths_receive o outer s
      rw [List.map_cons, run_cons, hstep, ih hkinds (hpaths ▸ hdrawn'.2), closeAll, depth_receive,
        ← close_push]
      rfl

/-- The figures of a finished canvas are those of all its scopes. -/
theorem length_leaves_finish (o : Options α) (c : Canvas α) :
    (Grouping.leavesOfAll (c.finish o)).length = c.count := by
  rw [finish, Grouping.leavesOfAll_flatten, closeAll]
  show (c.closeTimes o c.depth).root.count = c.count
  induction hn : c.depth generalizing c with
  | zero =>
      have hopened : c.opened = [] := List.length_eq_zero_iff.mp hn
      simp [closeTimes, count, Scope.count, scopes, hopened]
  | succ n ih =>
      rcases c with ⟨p, root, - | ⟨s, opened⟩⟩
      · cases hn
      · let outer : Canvas α := ⟨p, root, opened⟩
        have hdepth : (outer.receive o s).depth = n := (depth_receive ..).trans (Nat.succ.inj hn)
        show ((outer.push s).close o |>.closeTimes o n).root.count = (outer.push s).count
        rw [close_push, ih _ hdepth, count_receive, count_push, Nat.add_comm]

/-- Part of a document may leave scopes open.  Their exits leave none, and to
finish without these exits gives the same shapes, if and only if every path that
is open has nothing to draw. -/
theorem finish_eq_finish_exits_iff (o : Options α) (palette : Palette α) (items : List Item)
    (n : Nat) :
    let before := (Item.eventsOfAll items).take n
    let c := (blank o palette).run o before
    let ended := c.run o (Event.missingExits before)
    ended.depth = 0 ∧
      (c.finish o = ended.finish o ↔ ∀ s ∈ c.opened, Scope.undrawn s.path = []) := by
  intro before c ended
  have hkinds : c.HasKinds (before.foldl Event.kindsAfter []) := HasKinds.run .nil o before
  obtain ⟨hopened, hcount⟩ := count_run_exits o hkinds
  refine ⟨congrArg List.length hopened, fun hfinish => ?_, fun hdrawn => ?_⟩
  · have hlength := congrArg (fun shapes => (Grouping.leavesOfAll shapes).length) hfinish
    simp only [length_leaves_finish] at hlength
    have hcount' : ended.count = _ := hcount
    have hnil : c.paths.flatMap Scope.undrawn = [] := List.length_eq_zero_iff.mp (by omega)
    exact List.forall_mem_map.mp (List.flatMap_eq_nil_iff.mp hnil)
  · have hended : ended = c.closeAll o :=
      run_exits_eq_closeAll o hkinds (List.forall_mem_map.mpr hdrawn)
    have hdepth : (c.closeAll o).depth = 0 := hended ▸ congrArg List.length hopened
    rw [hended]
    show _ = Grouping.flatten ((c.closeAll o).closeTimes o (c.closeAll o).depth).root.shapes
    rw [hdepth]
    rfl

/-- A custom path with one line, left open before its end: the line is lost,
while the exit of the path draws it. -/
theorem finish_loses_undrawn_line :
    let source := "\\pscustom\x7b\\lineto(2,2)\x7d"
    let corner : Coord := .cartesian ⟨.decimal false 2 0, none⟩ ⟨.decimal false 2 0, none⟩
    let items : List Item :=
      [.scope (.custom false []) [.command (.path (.lineTo false [corner]))]]
    let before := (Item.eventsOfAll items).take 2
    let c := (blank (.standard : Options Float) .predefined).run .standard before
    Item.ofSource? source = some items ∧ c.depth = 1 ∧
      Event.missingExits before = [.exit .custom] ∧
      (c.finish .standard).length = 0 ∧
      ((c.run .standard (Event.missingExits before)).finish .standard).length = 1 := by
  refine ⟨by cbv, by decide, by decide, by decide, by decide +kernel⟩

end Canvas

end PictureTree
