/-
# `Proofs.Canvas.Nesting` — what an item does to the scope it stands in

A canvas is drawn event by event, and every event acts on one stack of scopes.
Here the same drawing is said without a stack: `Item.drawIn` takes an item, the
palette and the scope that the item stands in, and answers with both as they
are afterwards.  It recurs on the items, and a scope inside is drawn from its
own beginning.

The two are joined by what an item can see of a canvas and change in it:

    here   c      the palette and the innermost scope
    put    c h    the canvas with these two replaced

`run_events` says that running the events of an item is `put` of `drawIn` of
`here`.  All that is outside `here` is out of reach, and of the innermost scope
a nested scope is handed nothing but the context; so the group that a scope
item leaves, and the palette after it, are functions of the item, that context,
the palette before and the options.

Nothing here asks that a document reaches the canvas: the statements are about
every canvas.
-/
import PictureTree.Canvas

namespace PictureTree

variable {α : Type}

namespace Canvas

/-! ## What an item can see -/

/-- The palette and the innermost scope. -/
def here (c : Canvas α) : Palette α × Scope α := (c.palette, c.innermost)

/-- The canvas with another palette and another innermost scope. -/
def put (c : Canvas α) (h : Palette α × Scope α) : Canvas α :=
  { c.change (fun _ => h.2) with palette := h.1 }

/-- The canvas with one scope more inside. -/
def push (c : Canvas α) (s : Scope α) : Canvas α := { c with opened := s :: c.opened }

/-- All scopes from the innermost to that of the document. -/
def scopes (c : Canvas α) : List (Scope α) := c.opened ++ [c.root]

theorem put_here (c : Canvas α) : c.put c.here = c := by
  rcases c with ⟨p, root, - | ⟨s, outer⟩⟩ <;> rfl

theorem put_innermost (c : Canvas α) (p : Palette α) :
    c.put (p, c.innermost) = { c with palette := p } := by
  rcases c with ⟨q, root, - | ⟨s, outer⟩⟩ <;> rfl

theorem here_put (c : Canvas α) (h : Palette α × Scope α) : (c.put h).here = h := by
  rcases c with ⟨p, root, - | ⟨s, outer⟩⟩ <;> rfl

theorem innermost_put (c : Canvas α) (h : Palette α × Scope α) : (c.put h).innermost = h.2 :=
  congrArg Prod.snd (here_put c h)

theorem put_put (c : Canvas α) (h h' : Palette α × Scope α) : (c.put h).put h' = c.put h' := by
  rcases c with ⟨p, root, - | ⟨s, outer⟩⟩ <;> rfl

theorem put_push (c : Canvas α) (s : Scope α) (h : Palette α × Scope α) :
    (c.push s).put h = { c with palette := h.1 }.push h.2 := rfl

theorem change_eq_put (c : Canvas α) (f : Scope α → Scope α) :
    c.change f = c.put (c.palette, f c.innermost) := by
  rcases c with ⟨p, root, - | ⟨s, outer⟩⟩ <;> rfl

theorem depth_put (c : Canvas α) (h : Palette α × Scope α) : (c.put h).depth = c.depth := by
  rcases c with ⟨p, root, - | ⟨s, outer⟩⟩ <;> rfl

theorem scopes_eq (c : Canvas α) : c.scopes = c.innermost :: c.scopes.tail := by
  rcases c with ⟨p, root, - | ⟨s, outer⟩⟩ <;> rfl

theorem scopes_put (c : Canvas α) (h : Palette α × Scope α) :
    (c.put h).scopes = h.2 :: c.scopes.tail := by
  rcases c with ⟨p, root, - | ⟨s, outer⟩⟩ <;> rfl

/-- What the new innermost scope has in common with the old one is the same in
all scopes. -/
theorem map_scopes_put {β : Type} {c : Canvas α} {p : Palette α} {s : Scope α}
    (f : Scope α → β) (h : f s = f c.innermost) :
    (c.put (p, s)).scopes.map f = c.scopes.map f := by
  rw [scopes_put, scopes_eq c, List.map_cons, List.map_cons, h, List.tail_cons]

/-! ## One group more -/

/-- `c'` is `c` with one group more at the end of the innermost scope. -/
structure GainsGroup (c c' : Canvas α) (members : List (Shape α)) : Prop where
  depth : c'.depth = c.depth
  contexts : c'.scopes.map Scope.context = c.scopes.map Scope.context
  paths : c'.scopes.map Scope.path = c.scopes.map Scope.path
  exits : c'.scopes.map Scope.exit = c.scopes.map Scope.exit
  stars : c'.scopes.map Scope.starred = c.scopes.map Scope.starred
  drawn : c'.innermost.drawn = .group members :: c.innermost.drawn
  outer : c'.scopes.tail = c.scopes.tail

theorem gainsGroup_put (c : Canvas α) (p : Palette α) (members : List (Shape α)) :
    c.GainsGroup
      (c.put (p, { c.innermost with drawn := .group members :: c.innermost.drawn }))
      members where
  depth := depth_put c _
  contexts := map_scopes_put Scope.context rfl
  paths := map_scopes_put Scope.path rfl
  exits := map_scopes_put Scope.exit rfl
  stars := map_scopes_put Scope.starred rfl
  drawn := congrArg (fun h => h.2.drawn) (here_put c _)
  outer := by rw [scopes_put, List.tail_cons]

end Canvas

variable [Scalar α]

/-! ## Groups under a transform -/

/-- A transform takes a group to the group of its transformed members. -/
theorem Exit.apply_group (e : Exit α) (gs : List (Shape α)) :
    e.apply (.group gs) = .group (gs.map e.apply) := by
  cases e with
  | keep => exact congrArg Grouping.group (List.map_id' gs).symm
  | place position angle =>
      show Shape.translate (Shape.rotate (.group gs) .origin angle) position.x position.y = _
      simp only [Shape.translate, Shape.rotate, Grouping.map, Grouping.mapAll_eq_map, List.map_map]
      rfl
  | turn center angle =>
      show Shape.rotate (.group gs) center angle = _
      simp only [Shape.rotate, Grouping.map, Grouping.mapAll_eq_map]
      rfl

/-- A group is no line, so it closes no arc. -/
@[simp] theorem draw_group (tolerance : α) (drawn : List (Shape α)) (gs : List (Shape α)) :
    draw tolerance drawn (.group gs) = .group gs :: drawn := by
  rcases drawn with - | ⟨_ | _, _⟩ <;> rfl

namespace Scope

/-- The members of the group that a scope leaves behind. -/
def members (s : Scope α) : List (Shape α) := s.shapes.map s.exit.apply

theorem leave_eq_group (s : Scope α) : s.leave = .group s.members := s.exit.apply_group s.shapes

/-- The scope as its end finds it: the path of a custom path is drawn first. -/
def ended (o : Options α) (s : Scope α) : ScopeKind → Scope α
  | .custom => s.flush o
  | _ => s

/-- Figures drawn one after the other change nothing but what is drawn. -/
theorem emitAll_eq (o : Options α) (s : Scope α) (fs : List (Figure α)) :
    s.emitAll o fs = { s with
      drawn := fs.foldl (fun drawn f => PictureTree.draw o.chordTolerance drawn (.one f)) s.drawn } := by
  induction fs generalizing s with
  | nil => rfl
  | cons f fs ih => exact ih (s.emit o (.one f))

theorem emit_leave (o : Options α) (s inner : Scope α) :
    s.emit o inner.leave = { s with drawn := .group inner.members :: s.drawn } := by
  rw [emit, leave_eq_group, draw_group]

end Scope

/-! ## Drawing without a stack -/

mutual

/-- The palette and the scope that an item stands in, after the item. -/
def Item.drawIn (o : Options α) : Item → Palette α × Scope α → Palette α × Scope α
  | .scope head items, (p, s) =>
      let inside := Item.drawAllIn o items (p, .begin p s.context head)
      (inside.1, s.emit o (inside.2.ended o head.kind).leave)
  | .command c, (p, s) => (p.learn c, s.obey o p c)

/-- The palette and the scope that some items stand in, after the items. -/
def Item.drawAllIn (o : Options α) : List Item → Palette α × Scope α → Palette α × Scope α
  | [], h => h
  | item :: items, h => Item.drawAllIn o items (item.drawIn o h)

end

namespace Canvas

/-! ## One event -/

theorem step_command (o : Options α) (c : Canvas α) (k : Command) :
    c.step o (.command k) = c.put (c.palette.learn k, c.innermost.obey o c.palette k) := by
  rw [step, change_eq_put]
  rcases c with ⟨p, root, - | ⟨s, outer⟩⟩ <;> rfl

theorem step_enter (o : Options α) (c : Canvas α) (head : ScopeHead) :
    c.step o (.enter head) = c.push (.begin c.palette c.innermost.context head) := rfl

/-- The end of a scope hands its group to the scope around it. -/
theorem step_exit_push (o : Options α) (c : Canvas α) (p : Palette α) (s : Scope α)
    (kind : ScopeKind) :
    ({ c with palette := p }.push s).step o (.exit kind)
      = c.put (p, c.innermost.emit o (s.ended o kind).leave) := by
  cases kind <;> rcases c with ⟨q, root, - | ⟨around, outer⟩⟩ <;> rfl

/-! ## Runs of events -/

theorem run_nil (o : Options α) (c : Canvas α) : c.run o [] = c := rfl

theorem run_cons (o : Options α) (c : Canvas α) (e : Event) (es : List Event) :
    c.run o (e :: es) = (c.step o e).run o es := rfl

theorem run_append (o : Options α) (c : Canvas α) (es es' : List Event) :
    c.run o (es ++ es') = (c.run o es).run o es' := List.foldl_append

mutual

/-- Running the events of an item is drawing it in the innermost scope. -/
theorem run_events (o : Options α) :
    ∀ (item : Item) (c : Canvas α), c.run o item.events = c.put (item.drawIn o c.here)
  | .command k, c => step_command o c k
  | .scope head items, c => by
      rw [Item.events, run_cons, step_enter, run_append, run_eventsOfAll o items, put_push,
        run_cons, step_exit_push, run_nil]
      rfl

theorem run_eventsOfAll (o : Options α) :
    ∀ (items : List Item) (c : Canvas α),
      c.run o (Item.eventsOfAll items) = c.put (Item.drawAllIn o items c.here)
  | [], c => (put_here c).symm
  | item :: items, c => by
      rw [Item.eventsOfAll, run_append, run_events o item, run_eventsOfAll o items, put_put,
        here_put, Item.drawAllIn]

end

/-- The items of a document are drawn in the scope of the document. -/
theorem root_drawItems (o : Options α) (palette : Palette α) (items : List Item) :
    (drawItems o palette items).root
      = (Item.drawAllIn o items (palette, .ofContext (.initial o.ppc))).2 := by
  rw [drawItems, run_eventsOfAll]
  rfl

/-- At the end of a document no scope is open. -/
theorem finish_drawItems (o : Options α) (palette : Palette α) (items : List Item) :
    (drawItems o palette items).finish o = Grouping.flatten
      (Item.drawAllIn o items (palette, .ofContext (.initial o.ppc))).2.shapes := by
  rw [drawItems, run_eventsOfAll]
  rfl

/-! ## Scope items -/

/-- A scope item of any size and nesting leaves one group in the scope around
it and touches nothing else.  Both the palette after the item and the members of
the group are functions of the palette before and of the context of the
innermost scope: they are the same on every canvas that agrees in these two. -/
theorem run_scope_item_local (o : Options α) (head : ScopeHead) (items : List Item) :
    ∃ (after : Palette α → Context α → Palette α)
      (members : Palette α → Context α → List (Shape α)), ∀ c : Canvas α,
        (c.run o (Item.scope head items).events).palette
            = after c.palette c.innermost.context ∧
          c.GainsGroup (c.run o (Item.scope head items).events)
            (members c.palette c.innermost.context) := by
  let inside (p : Palette α) (context : Context α) :=
    Item.drawAllIn o items (p, .begin p context head)
  refine ⟨fun p context => (inside p context).1,
    fun p context => ((inside p context).2.ended o head.kind).members, fun c => ?_⟩
  have hrun : c.run o (Item.scope head items).events
      = c.put ((inside c.palette c.innermost.context).1, c.innermost.emit o
          ((inside c.palette c.innermost.context).2.ended o head.kind).leave) :=
    run_events o _ c
  rw [hrun, Scope.emit_leave]
  exact ⟨rfl, gainsGroup_put c _ _⟩

end Canvas

end PictureTree
