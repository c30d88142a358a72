/-
# `Proofs.Canvas.Origins` — at which event a figure was drawn

A scene has the figures of a document, each with the ends of the scopes around it.
The events of the document are run on a canvas, and each of them may draw figures
in the innermost scope (`Canvas.figuresAt`):

    a command            its figures
    the end of a scope   the runs of its path, and its text
    the end of it all    the text of the document

The two fit together.  Every figure of the scenes of a document comes from some
event (`Canvas.exists_origin`), and the ends around it are those of the scopes that
were open on the canvas when that event came.
-/
import PictureTree.Proofs.Canvas.Placement

namespace PictureTree

variable {α : Type} [Scalar α]

omit [Scalar α] in
/-- A chord is not closed again. -/
theorem Figure.asChord_asChord (f : Figure α) : f.asChord.asChord = f.asChord := by
  rcases f with ⟨outline, rotation, paint⟩
  cases outline <;> rfl

/-! ## The figures of scenes -/

namespace Scene

section AllLeaves

variable {P : Placed α → Prop}

omit [Scalar α] in
theorem allLeaves_map_here {fs : List (Figure α)} :
    Grouping.AllLeaves P (fs.map Scene.here) ↔ ∀ f ∈ fs, P ⟨f, []⟩ := by
  have hmap : fs.map Scene.here = (fs.map fun f => (⟨f, []⟩ : Placed α)).map .one := by
    rw [List.map_map]
    rfl
  rw [hmap, Grouping.allLeaves_map_one, List.forall_mem_map]

omit [Scalar α] in
/-- The figures of a scope are those of its members, with the end of the scope. -/
theorem allLeaves_scope {e : Exit α} {members : List (Scene α)} :
    Grouping.AllLeaves P [scope e members]
      ↔ Grouping.AllLeaves (fun p => P (p.within e)) members := by
  have hleaves : Grouping.leavesOfAll [scope e members]
      = (Grouping.leavesOfAll members).map (Placed.within e) := by
    rw [← Grouping.leavesOfAll_mapAll, Grouping.mapAll_eq_map]
    exact List.append_nil _
  rw [Grouping.AllLeaves, hleaves, List.forall_mem_map]
  rfl

/-- What holds of all figures of some scenes, and is not lost when an arc becomes a
chord, holds with the lines taken in. -/
theorem allLeaves_fuse
    (hchord : ∀ p, P p → P { p with figure := p.figure.asChord }) {tolerance : α}
    {ss : List (Scene α)} (h : Grouping.AllLeaves P ss) :
    Grouping.AllLeaves P (fuse tolerance ss) := by
  fun_induction fuse tolerance ss with
  | case1 => exact h
  | case2 s => exact h
  | case3 arc line ss hcloses ih =>
      obtain ⟨harc, hrest⟩ := Grouping.allLeaves_cons.mp h
      obtain ⟨-, hss⟩ := Grouping.allLeaves_cons.mp hrest
      refine Grouping.allLeaves_cons.mpr ⟨?_, ih hss⟩
      cases arc with
      | one p =>
          have hp : P p := (Grouping.allLeaves_cons_one.mp harc).1
          exact Grouping.allLeaves_cons_one.mpr ⟨hchord p hp, Grouping.allLeaves_nil⟩
      | group ms => exact harc
  | case4 arc line ss hcloses ih =>
      obtain ⟨harc, hrest⟩ := Grouping.allLeaves_cons.mp h
      exact Grouping.allLeaves_cons.mpr ⟨harc, ih hrest⟩

end AllLeaves

end Scene

/-! ## Figures and events -/

namespace Canvas

/-- The figures that an event draws in the innermost scope; without a further event
the document ends. -/
def figuresAt (o : Options α) (c : Canvas α) : Option Event → List (Figure α)
  | some (.command k) => c.innermost.figures o c.palette k
  | some (.enter _) => []
  | some (.exit kind) => c.innermost.lastFigures kind ++ c.innermost.textFigure?.toList
  | none => c.innermost.textFigure?.toList

end Canvas

/-- A figure comes from one of some events that are run on a canvas: it was drawn
there, if not with a line taken in later, and the scopes around it are those that
were open then, and not open before. -/
def Placed.ComesFrom (o : Options α) (c : Canvas α) (events : List Event) (p : Placed α) : Prop :=
  ∃ before e after, events = before ++ e :: after ∧
    (∃ f ∈ (c.run o before).figuresAt o (some e), p.figure = f ∨ p.figure = f.asChord) ∧
    (c.run o before).opened.map Scope.exit = p.exits ++ c.opened.map Scope.exit

namespace Placed.ComesFrom

variable {o : Options α} {c : Canvas α} {events : List Event} {p : Placed α}

theorem asChord (h : p.ComesFrom o c events) :
    Placed.ComesFrom o c events { p with figure := p.figure.asChord } := by
  obtain ⟨before, e, after, hevents, ⟨f, hf, hfigure⟩, hexits⟩ := h
  refine ⟨before, e, after, hevents, ⟨f, hf, .inr ?_⟩, hexits⟩
  rcases hfigure with hfigure | hfigure <;> rw [hfigure]
  exact f.asChord_asChord

/-- Events behind those of a figure are of no account. -/
theorem append_right (h : p.ComesFrom o c events) (events' : List Event) :
    p.ComesFrom o c (events ++ events') := by
  obtain ⟨before, e, after, rfl, hfigure, hexits⟩ := h
  exact ⟨before, e, after ++ events', by simp, hfigure, hexits⟩

/-- Events before those of a figure, if they leave the same scopes open. -/
theorem append_left {events' : List Event} (h : p.ComesFrom o (c.run o events') events)
    (hopened : (c.run o events').opened.map Scope.exit = c.opened.map Scope.exit) :
    p.ComesFrom o c (events' ++ events) := by
  obtain ⟨before, e, after, rfl, hfigure, hexits⟩ := h
  refine ⟨events' ++ before, e, after, by simp, ?_, ?_⟩
  · rwa [Canvas.run_append]
  · rw [Canvas.run_append, hexits, hopened]

/-- The events of a scope, with its two ends around them. -/
theorem within {head : ScopeHead} {kind : ScopeKind}
    (h : p.ComesFrom o (c.step o (.enter head)) (events ++ [.exit kind])) :
    (p.within (head.exit c.palette c.innermost.context)).ComesFrom o c
      (.enter head :: (events ++ [.exit kind])) := by
  obtain ⟨before, e, after, hevents, hfigure, hexits⟩ := h
  refine ⟨.enter head :: before, e, after, by rw [hevents]; rfl, hfigure, ?_⟩
  have hopened : (c.step o (.enter head)).opened.map Scope.exit
      = head.exit c.palette c.innermost.context :: c.opened.map Scope.exit :=
    congrArg (· :: _) (Scope.exit_begin ..)
  rw [Canvas.run_cons, hexits, hopened, Placed.within, List.append_assoc]
  rfl

end Placed.ComesFrom

namespace Canvas

/-- Items leave the open scopes with the ends that they had. -/
theorem opened_run_eventsOfAll (o : Options α) (c : Canvas α) (items : List Item) :
    (c.run o (Item.eventsOfAll items)).opened.map Scope.exit = c.opened.map Scope.exit := by
  rw [run_eventsOfAll]
  have hexit := Item.exit_drawAllIn o items c.here
  rcases c with ⟨p, root, - | ⟨s, outer⟩⟩
  · rfl
  · exact congrArg (· :: _) hexit

end Canvas

mutual

/-- The figures of an item come from its events. -/
theorem Item.comesFrom_scenes (o : Options α) : ∀ (item : Item) (c : Canvas α),
    Grouping.AllLeaves (Placed.ComesFrom o c item.events) (item.scenes o c.here)
  | .command k, c =>
      Scene.allLeaves_map_here.mpr fun f hf => ⟨[], .command k, [], rfl, ⟨f, hf, .inl rfl⟩, rfl⟩
  | .scope head items, c => by
      let start := c.step o (.enter head)
      let inside := start.run o (Item.eventsOfAll items)
      have hinside : (Item.drawAllIn o items start.here).2 = inside.innermost := by
        rw [← Canvas.innermost_put start]
        exact congrArg Canvas.innermost (Canvas.run_eventsOfAll o items start).symm
      have hitems := Item.comesFrom_scenesAll o items start
      -- what the end of the scope draws
      have hend : ∀ f ∈ inside.figuresAt o (some (.exit head.kind)),
          Placed.ComesFrom o start (Item.eventsOfAll items ++ [.exit head.kind]) ⟨f, []⟩ :=
        fun f hf => ⟨Item.eventsOfAll items, .exit head.kind, [], rfl, ⟨f, hf, .inl rfl⟩,
          start.opened_run_eventsOfAll o items⟩
      obtain ⟨hlast, htext⟩ := List.forall_mem_append.mp hend
      rw [← hinside] at hlast htext
      refine Scene.allLeaves_scope.mpr fun p hp => Placed.ComesFrom.within ?_
      refine Grouping.allLeaves_append.mpr
        ⟨Scene.allLeaves_fuse (fun p => .asChord) ?_, Scene.allLeaves_map_here.mpr htext⟩ p hp
      exact Grouping.allLeaves_append.mpr
        ⟨fun p hp => (hitems p hp).append_right _, Scene.allLeaves_map_here.mpr hlast⟩

theorem Item.comesFrom_scenesAll (o : Options α) : ∀ (items : List Item) (c : Canvas α),
    Grouping.AllLeaves (Placed.ComesFrom o c (Item.eventsOfAll items))
      (Item.scenesAll o items c.here)
  | [], _ => Grouping.allLeaves_nil
  | item :: items, c => by
      have hitem := Item.comesFrom_scenes o item c
      have hitems := Item.comesFrom_scenesAll o items (c.run o item.events)
      have hopened := c.opened_run_eventsOfAll o [item]
      rw [Item.eventsOfAll, Item.eventsOfAll, List.append_nil] at hopened
      have hhere : (c.run o item.events).here = item.drawIn o c.here := by
        rw [Canvas.run_events, Canvas.here_put]
      rw [hhere] at hitems
      exact Grouping.allLeaves_append.mpr
        ⟨fun p hp => (hitem p hp).append_right _, fun p hp => (hitems p hp).append_left hopened⟩

end

namespace Canvas

/-- Every figure of the scenes of a document was drawn at a place in its events, and
the ends around it are those of the scopes that were open there. -/
theorem exists_origin (o : Options α) (palette : Palette α) (items : List Item) :
    Grouping.AllLeaves (fun p => ∃ before after, Item.eventsOfAll items = before ++ after ∧
      (∃ f ∈ ((blank o palette).run o before).figuresAt o after.head?,
        p.figure = f ∨ p.figure = f.asChord) ∧
      p.exits = ((blank o palette).run o before).opened.map Scope.exit)
      (scenes o palette items) := by
  let start : Canvas α := blank o palette
  have hitems := Item.comesFrom_scenesAll o items start
  refine Grouping.allLeaves_append.mpr ⟨fun p hp => ?_, Scene.allLeaves_map_here.mpr fun f hf => ?_⟩
  · obtain ⟨before, e, after, hevents, hfigure, hexits⟩ :=
      Scene.allLeaves_fuse (fun p => .asChord) hitems p hp
    have hnone : start.opened = [] := rfl
    rw [hnone, List.map_nil, List.append_nil] at hexits
    exact ⟨before, e :: after, hevents, hfigure, hexits.symm⟩
  · -- the text of the document comes behind all events
    refine ⟨Item.eventsOfAll items, [], (List.append_nil _).symm, ⟨f, ?_, .inl rfl⟩, ?_⟩
    · show f ∈ (start.run o (Item.eventsOfAll items)).innermost.textFigure?.toList
      rwa [run_eventsOfAll, innermost_put]
    · rw [opened_run_eventsOfAll]
      rfl

end Canvas

end PictureTree
