/-
# `Proofs.Canvas.CustomPaths` — no path command is lost

A path command acts on the path of the innermost scope, and where that scope has
none it does nothing and reports nothing.  So a scope of the wrong kind would
lose parts of a drawing without a trace.  It does not happen:

    in a source        path commands stand directly in custom paths
                       (`Item.pathsPlaced_of_ofSource?`)
    on the canvas      the innermost scope has a path whenever one comes
    at the end         the path is that of these commands, in order

`pathCommands_drawn` says all three.  What else stands in a custom path may set
parameters, draw, write, or be a scope with a path of its own; the path goes on
behind it from where it was.
-/
import PictureTree.Proofs.Canvas.Closing
import PictureTree.Proofs.Canvas.Finiteness
import PictureTree.Proofs.Canvas.Placement
import PictureTree.Proofs.Document.PathCommands
import PictureTree.Proofs.Path.Merging
import PictureTree.Proofs.Shape.Resolution

namespace PictureTree

variable {α : Type} [Scalar α]

/-! ## The calls of path commands -/

namespace PathCommand

/-- The points that a path command goes to from a cursor; none if a target
cannot be used. -/
def points (c : Context α) (cursor : Point α) (k : PathCommand) : List (Point α) :=
  let qs := (c.points? k.targets).getD []
  match k with
  | .lineTo true _ | .curveTo true _ _ _ => cursor.reached qs
  | _ => qs

/-- The calls of a path command at a cursor. -/
def calls (c : Context α) (cursor : Point α) (k : PathCommand) : List (PathCall α) :=
  match k with
  | .moveTo _ => (k.points c cursor).map .moveTo
  | .lineTo .. => (k.points c cursor).map .lineTo
  | .curveTo .. => (k.points c cursor).map .curveTo
  | .close => [.close]

/-- The calls of some path commands, each of them in its context, that follow
each other from a cursor. -/
def callsOf (cursor : Point α) : List (PathCommand × Context α) → List (PathCall α)
  | [] => []
  | (k, c) :: ks =>
      k.calls c cursor ++ callsOf ((k.calls c cursor).foldl PathCall.cursorFrom cursor) ks

/-- A path command with a target that cannot be used makes no call. -/
theorem calls_of_not_resolves {c : Context α} {k : PathCommand} (h : ¬ k.Resolves c)
    (cursor : Point α) : k.calls c cursor = [] := by
  have hnone : c.points? k.targets = none :=
    eq_none_of_isSome_iff points?_targets_isSome_iff h
  cases k with
  | moveTo p => simp [calls, points, hnone]
  | lineTo relative ps | curveTo relative _ _ p =>
      cases relative <;> simp [calls, points, hnone, Point.reached]
  | close => cases hnone

theorem callsOf_filter_resolves (cursor : Point α) (ks : List (PathCommand × Context α)) :
    callsOf cursor (ks.filter fun k => k.1.Resolves k.2) = callsOf cursor ks := by
  induction ks generalizing cursor with
  | nil => rfl
  | cons k ks ih =>
      obtain ⟨k, c⟩ := k
      by_cases h : k.Resolves c
      · simp [callsOf, h, ih]
      · simp [callsOf, h, calls_of_not_resolves h, ih]

end PathCommand

/-- Segments to targets, or along displacements, one after the other. -/
theorem Path.foldl_lineTo (path : Path α) (relative : Bool) (qs : List (Point α)) :
    qs.foldl (fun path q => path.lineTo (if relative then path.cursor + q else q)) path
      = ((if relative then path.cursor.reached qs else qs).map .lineTo).foldl PathCall.apply
          path := by
  induction qs generalizing path with
  | nil => cases relative <;> rfl
  | cons q qs ih =>
      rw [List.foldl_cons, ih]
      cases relative <;> rfl

/-- What a path command does to a path are its calls. -/
theorem Scope.trace?_getD (c : Context α) (path : Path α) (k : PathCommand) :
    (trace? c path k).getD path = (k.calls c path.cursor).foldl PathCall.apply path := by
  cases k with
  | moveTo p =>
      cases h : c.point? p <;>
        simp [trace?, PathCommand.calls, PathCommand.points, PathCommand.targets,
          Context.points?, h, PathCall.apply]
  | lineTo relative ps =>
      cases h : c.points? ps with
      | none =>
          cases relative <;> simp [trace?, PathCommand.calls, PathCommand.points,
            PathCommand.targets, h, Point.reached]
      | some qs =>
          have hline := path.foldl_lineTo relative qs
          cases relative <;> simpa [trace?, PathCommand.calls, PathCommand.points,
            PathCommand.targets, h] using hline
  | curveTo relative first second last =>
      cases h : c.point? last <;> cases relative <;>
        simp [trace?, PathCommand.calls, PathCommand.points, PathCommand.targets,
          Context.points?, h, PathCall.apply, Point.reached]
  | close => rfl

omit [Scalar α] in
theorem Path.cursor_foldl_apply (path : Path α) (calls : List (PathCall α)) :
    (calls.foldl PathCall.apply path).cursor = calls.foldl PathCall.cursorFrom path.cursor := by
  induction calls generalizing path with
  | nil => rfl
  | cons call calls ih =>
      rw [List.foldl_cons, ih, PathCall.cursor_apply]
      rfl

/-! ## The path commands of a body -/

/-- The path command that an item is. -/
def Item.pathCommand? : Item → Option PathCommand
  | .command (.path k) => some k
  | _ => none

theorem Item.eq_of_pathCommand? {item : Item} {k : PathCommand}
    (h : item.pathCommand? = some k) : item = .command (.path k) := by
  unfold pathCommand? at h
  split at h
  · rw [Option.some.inj h]
  · cases h

namespace Scope

/-- Custom paths begin with a path, and no other scopes do. -/
theorem isSome_path_begin (palette : Palette α) (outer : Context α) {head : ScopeHead} :
    (begin palette outer head).path.isSome = true ↔ head.kind = .custom := by
  cases head <;> simp [begin, ofContext, ScopeHead.kind]

/-- A path command changes nothing but the path. -/
theorem obey_path (o : Options α) (palette : Palette α) (s : Scope α) (k : PathCommand) :
    (s.obey o palette (.path k)).path
      = s.path.map fun path => (k.calls s.context path.cursor).foldl PathCall.apply path := by
  refine Option.map_congr fun path _ => ?_
  exact trace?_getD s.context path k

/-- All other commands leave the path as it is. -/
theorem path_obey_of_ne (o : Options α) (palette : Palette α) (s : Scope α) {c : Command}
    (h : (Item.command c).pathCommand? = none) : (s.obey o palette c).path = s.path := by
  cases c with
  | path k => cases h
  | set | defineColor | newColor => rfl
  | shape | includePicture => simp only [obey, emitAll_eq]
  | framedBox | text =>
      simp only [obey, write]
      split <;> rfl
  | useColor =>
      simp only [obey, chooseSpec]
      split <;> rfl
  | textColor =>
      simp only [obey, chooseSpec, write]
      split <;> split <;> rfl

end Scope

namespace Canvas

/-- The path commands that stand directly among some items, each with the
context of the scope it stands in, at its place. -/
def directPaths (o : Options α) (c : Canvas α) : List Item → List (PathCommand × Context α)
  | [] => []
  | item :: items =>
      (item.pathCommand?.map (·, c.innermost.context)).toList ++
        (c.run o item.events).directPaths o items

/-- An item that is no path command leaves the path as it is. -/
theorem path_run_events_of_none (o : Options α) (c : Canvas α) {item : Item}
    (h : item.pathCommand? = none) : (c.run o item.events).innermost.path = c.innermost.path := by
  rw [run_events, innermost_put]
  cases item with
  | scope head items =>
      show (c.innermost.emit o _).path = _
      rw [Scope.emit_leave]
  | command k => exact Scope.path_obey_of_ne o c.palette c.innermost h

/-- The path behind some items is that before, with their path commands drawn. -/
theorem path_run_eventsOfAll (o : Options α) {c : Canvas α} {path : Path α}
    (hpath : c.innermost.path = some path) (items : List Item) :
    (c.run o (Item.eventsOfAll items)).innermost.path
      = some ((PathCommand.callsOf path.cursor (c.directPaths o items)).foldl PathCall.apply
          path) := by
  induction items generalizing c path with
  | nil => exact hpath
  | cons item items ih =>
      rw [Item.eventsOfAll, run_append, directPaths]
      cases hitem : item.pathCommand? with
      | none =>
          rw [ih ((path_run_events_of_none o c hitem).trans hpath)]
          rfl
      | some k =>
          obtain rfl := Item.eq_of_pathCommand? hitem
          have hnext : (c.run o (Item.command (.path k)).events).innermost.path
              = some ((k.calls c.innermost.context path.cursor).foldl PathCall.apply path) := by
            rw [run_events, innermost_put]
            exact (Scope.obey_path o c.palette c.innermost k).trans (by rw [hpath]; rfl)
          rw [ih hnext, Path.cursor_foldl_apply, ← List.foldl_append]
          rfl

/-- A custom path leaves a group in the scope around it: what else is drawn in
it, the runs of its path commands, and its text. -/
theorem drawn_run_custom (o : Options α) (c : Canvas α) (starred : Bool) (ps : List Param)
    (body : List Item) :
    let start := c.step o (.enter (.custom starred ps))
    let inside := start.run o (Item.eventsOfAll body)
    let direct := (start.directPaths o body).filter fun k => k.1.Resolves k.2
    let path := Path.drawn (PathCommand.callsOf .origin direct)
    inside.innermost.path = some path ∧
      (inside.step o (.exit .custom)).innermost.drawn
        = .group (inside.innermost.drawn.reverse
            ++ path.runs.map (fun run => .one (inside.innermost.runFigure run))
            ++ inside.innermost.textFigure?.toList.map .one) :: c.innermost.drawn := by
  intro start inside direct path
  have hpath : inside.innermost.path = some path := by
    have hstart : start.innermost.path = some .empty := rfl
    have hrun := path_run_eventsOfAll o hstart body
    rw [← PathCommand.callsOf_filter_resolves] at hrun
    exact hrun
  refine ⟨hpath, ?_⟩
  let inner := Item.drawAllIn o body
    (c.palette, .begin c.palette c.innermost.context (.custom starred ps))
  have hinside : inside = { c with palette := inner.1 }.push inner.2 := run_eventsOfAll o body start
  have hinner : inside.innermost = inner.2 := by rw [hinside]; rfl
  have hexit : inner.2.exit = .keep := Item.exit_drawAllIn o body _
  have hruns : inner.2.lastFigures .custom = path.runs.map inner.2.runFigure := by
    rw [Scope.lastFigures, ← hinner, hpath]
    simp [Scope.undrawn]
  have hmembers : (inner.2.ended o .custom).members = (inner.2.ended o .custom).shapes := by
    have hkeep : (inner.2.ended o .custom).exit = .keep := by
      rw [Scope.ended_eq]
      exact hexit
    rw [Scope.members, hkeep]
    exact List.map_id' _
  rw [hinner, hinside, step_exit_push, innermost_put, Scope.emit_leave, hmembers,
    Scope.shapes_ended_custom, hruns, List.map_map]
  rfl

/-! ## Path commands come where a path is -/

/-- The innermost scope has a path at every path command among some events. -/
def PathReady (o : Options α) (c : Canvas α) (events : List Event) : Prop :=
  ∀ n k, events[n]? = some (.command (.path k)) →
    (c.run o (events.take n)).innermost.path.isSome = true

namespace PathReady

variable {o : Options α} {c : Canvas α} {events events' : List Event}

theorem nil : c.PathReady o [] := fun n k hk => by cases hk

theorem single {e : Event} (h : ∀ k, e = .command (.path k) → c.innermost.path.isSome = true) :
    c.PathReady o [e] := by
  intro n k hk
  cases n with
  | zero => exact h k (Option.some.inj hk)
  | succ n => simp at hk

theorem append (h : c.PathReady o events) (h' : (c.run o events).PathReady o events') :
    c.PathReady o (events ++ events') := by
  intro n k hk
  rcases Nat.lt_or_ge n events.length with hn | hn
  · rw [List.getElem?_append_left hn] at hk
    rw [List.take_append_of_le_length hn.le]
    exact h n k hk
  · rw [List.getElem?_append_right hn] at hk
    rw [List.take_append, List.take_of_length_le hn, run_append]
    exact h' _ k hk

/-- The two ends of a scope are no path commands. -/
theorem scope {head : ScopeHead} (h : (c.step o (.enter head)).PathReady o events) :
    c.PathReady o (.enter head :: (events ++ [.exit head.kind])) := by
  have henter : c.PathReady o [.enter head] := single fun k hk => by cases hk
  have hexit : ((c.step o (.enter head)).run o events).PathReady o [.exit head.kind] :=
    single fun k hk => by cases hk
  exact henter.append (h.append hexit)

end PathReady

/-- No item takes the path from the scope it stands in, or gives it one. -/
theorem isSome_path_run_events (o : Options α) (c : Canvas α) (item : Item) :
    (c.run o item.events).innermost.path.isSome = c.innermost.path.isSome := by
  cases hitem : item.pathCommand? with
  | none => rw [path_run_events_of_none o c hitem]
  | some k =>
      obtain rfl := Item.eq_of_pathCommand? hitem
      rw [run_events, innermost_put]
      exact Option.isSome_map

mutual

/-- Path commands that stand where they may come where a path is. -/
theorem pathReady_events (o : Options α) : ∀ (item : Item) (c : Canvas α),
    item.PathsPlaced (c.innermost.path.isSome = true) → c.PathReady o item.events
  | .command k, c, h => by
      refine .single fun k' hk => ?_
      obtain rfl := Event.command.inj hk
      exact h
  | .scope head items, c, h => by
      have hitems : Item.PathsPlacedAll (head.kind = .custom) items := h
      have hinnermost : (c.step o (.enter head)).innermost
          = .begin c.palette c.innermost.context head := rfl
      rw [← Scope.isSome_path_begin c.palette c.innermost.context, ← hinnermost] at hitems
      exact .scope (pathReady_eventsOfAll o items (c.step o (.enter head)) hitems)

theorem pathReady_eventsOfAll (o : Options α) : ∀ (items : List Item) (c : Canvas α),
    Item.PathsPlacedAll (c.innermost.path.isSome = true) items →
      c.PathReady o (Item.eventsOfAll items)
  | [], _, _ => .nil
  | item :: items, c, h => by
      have hitems := h.2
      rw [← isSome_path_run_events o c item] at hitems
      exact .append (pathReady_events o item c h.1) (pathReady_eventsOfAll o items _ hitems)

end

/-- In a source that parses, every path command stands directly in a custom path,
and is drawn where the innermost scope has a path.  So the end of a custom path
draws the runs of all the path commands that stand directly in it, in order; a
command with a target that cannot be used is left out, and nothing else. -/
theorem pathCommands_drawn (o : Options α) (palette : Palette α) {source : String}
    {items : List Item} (h : Item.ofSource? source = some items) :
    Item.PathsPlacedAll False items ∧
      (∀ n k, (Item.eventsOfAll items)[n]? = some (.command (.path k)) →
        ((blank o palette).run o ((Item.eventsOfAll items).take n)).innermost.path.isSome = true) ∧
      ∀ before starred ps body after, Item.eventsOfAll items
          = before ++ (Item.scope (.custom starred ps) body).events ++ after →
        let outside := (blank o palette).run o before
        let start := outside.step o (.enter (.custom starred ps))
        let inside := start.run o (Item.eventsOfAll body)
        let direct := (start.directPaths o body).filter fun k => k.1.Resolves k.2
        let path := Path.drawn (PathCommand.callsOf .origin direct)
        inside.innermost.path = some path ∧
          (inside.step o (.exit .custom)).innermost.drawn
            = .group (inside.innermost.drawn.reverse
                ++ path.runs.map (fun run => .one (inside.innermost.runFigure run))
                ++ inside.innermost.textFigure?.toList.map .one) :: outside.innermost.drawn := by
  have hplaced := Item.pathsPlaced_of_ofSource? h
  have hblank : Item.PathsPlacedAll ((blank o palette).innermost.path.isSome = true) items := by
    rw [← Bool.false_eq_true] at hplaced
    exact hplaced
  exact ⟨hplaced, pathReady_eventsOfAll o items _ hblank,
    fun before starred ps body after _ => drawn_run_custom o _ starred ps body⟩

/-- Two lines with a dot between them. -/
theorem pathCommands_drawn_lines_around_dot :
    let source := "\\pscustom\x7b\\lineto(2,2)\\psdot(1,1)\\lineto(3,3)\x7d"
    let corner (n : Nat) : Coord :=
      .cartesian ⟨.decimal false n 0, none⟩ ⟨.decimal false n 0, none⟩
    let line (n : Nat) : PathCommand := .lineTo false [corner n]
    let body : List Item := [.command (.path (line 2)),
      .command (.shape .dot ⟨false, [], none, [corner 1], []⟩), .command (.path (line 3))]
    let start := (blank (.standard : Options Float) .predefined).step .standard
      (.enter (.custom false []))
    let inside := start.run .standard (Item.eventsOfAll body)
    let direct := (start.directPaths .standard body).filter fun k => k.1.Resolves k.2
    let path := Path.drawn (PathCommand.callsOf .origin direct)
    Item.ofSource? source = some [.scope (.custom false []) body] ∧
      direct.map Prod.fst = [line 2, line 3] ∧ inside.innermost.path = some path ∧
      (inside.step .standard (.exit .custom)).innermost.drawn
        = [.group (inside.innermost.drawn.reverse
            ++ path.runs.map (fun run => .one (inside.innermost.runFigure run))
            ++ inside.innermost.textFigure?.toList.map .one)] := by
  intro source corner line body start inside direct path
  have hsource : Item.ofSource? source = some [.scope (.custom false []) body] := by cbv
  have hdirect : direct.map Prod.fst = [line 2, line 3] := by decide +kernel
  have hdrawn := (pathCommands_drawn .standard (.predefined : Palette Float) hsource).2.2 []
    false [] body [] rfl
  exact ⟨hsource, hdirect, hdrawn⟩

/-- A curve whose first control point is too far away to be used is drawn all the
same: its control points are not looked at. -/
theorem pathCommands_drawn_curve_with_far_control :
    let zeros := String.ofList (List.replicate 309 '0')
    let source := "\\pscustom\x7b\\curveto(1" ++ zeros ++ ",0)(0,0)(1,1)\x7d"
    let corner (n m : Nat) : Coord :=
      .cartesian ⟨.decimal false n 0, none⟩ ⟨.decimal false m 0, none⟩
    let body : List Item :=
      [.command (.path (.curveTo false (corner (10 ^ 309) 0) (corner 0 0) (corner 1 1)))]
    let start := (blank (.standard : Options Float) .predefined).step .standard
      (.enter (.custom false []))
    let inside := start.run .standard (Item.eventsOfAll body)
    let usable := (start.directPaths .standard body).filter
      fun k => AllFinite (k.2.placed k.1.coords)
    (Item.ofSource? source).map Item.eventsOfAll
        = some (Item.scope (.custom false []) body).events ∧
      (Path.drawn (PathCommand.callsOf .origin usable)).runs.length = 0 ∧
      (inside.step .standard (.exit .custom)).innermost.drawn.map
        (fun shape => shape.leaves.map Figure.kind) = [[.freehand]] := by
  intro zeros source corner body start inside usable
  -- the long text is put together as a list, which is much shorter to compute with
  have hsource : source.toList = "\\pscustom\x7b\\curveto(1".toList ++ List.replicate 309 '0'
      ++ ",0)(0,0)(1,1)\x7d".toList := by
    simp only [source, zeros, String.toList_append, String.toList_ofList]
  refine ⟨?_, by decide +kernel, by decide +kernel⟩
  rw [Item.ofSource?, hsource]
  decide +kernel

end Canvas

end PictureTree
