/-
# `Proofs.Canvas.Brackets` — parameters in brackets are settings in braces

Parameters that an item carries in brackets count for that item only.  The same
is said by a pair of braces with the settings in front of the item:

    X[P]    {\psset{P} X}

`finish_unbracketed` says that a document means the same with one of its items
replaced like this, at any depth, if no arc is drawn in it.

The two sides are drawn event by event, and are compared after each of them by
`Canvas.Alike`: the palettes are equal, and so are the scopes, except that what
is drawn in them may be grouped in another way, as long as it collapses to the
same shapes.  Every event keeps this up, since it looks at the shapes drawn
before it only to close an arc.  With an arc in front of the item, a line in
brackets can close it, and a line in braces cannot.
-/
import Mathlib
import PictureTree.Proofs.Canvas.Leaves
import PictureTree.Proofs.Context.Settings
import PictureTree.Proofs.Grouping.Leaves
import PictureTree.Scalar.Double

namespace PictureTree

/-! ## Items with parameters in brackets -/

/-- Commands of one figure that may have parameters in brackets, arcs aside. -/
def ShapeCommand.isBracketed : ShapeCommand → Bool
  | .disk | .segment | .dots | .arc _ => false
  | _ => true

/-- A head with parameters in brackets, and the head without them. -/
inductive ScopeHead.Carries : ScopeHead → List Param → ScopeHead → Prop
  | picture (starred : Bool) (ps : List Param) (corners : List Coord) :
      Carries (.picture starred ps corners) ps (.picture starred [] corners)
  | custom (starred : Bool) (ps : List Param) : Carries (.custom starred ps) ps (.custom starred [])
  | turn (ps : List Param) (center : Coord) (angle : Quantity) :
      Carries (.turn ps center angle) ps (.turn [] center angle)

/-- An item with parameters in brackets, and the item without them. -/
inductive Item.Carries : Item → List Param → Item → Prop
  | shape {command : ShapeCommand} (a : Arguments) : command.isBracketed = true →
      Carries (.command (.shape command a)) a.params
        (.command (.shape command { a with params := [] }))
  | scope {head bare : ScopeHead} {ps : List Param} (items : List Item) : head.Carries ps bare →
      Carries (.scope head items) ps (.scope bare items)

/-- One item, at some depth, has its parameters set in braces around it. -/
inductive Item.Unbrackets : List Item → List Item → Prop
  | here {item bare : Item} {ps : List Param} (before after : List Item) : item.Carries ps bare →
      Unbrackets (before ++ item :: after)
        (before ++ .scope .block [.command (.set ps), bare] :: after)
  | within {items items' : List Item} (before : List Item) (head : ScopeHead)
      (after : List Item) : Unbrackets items items' →
      Unbrackets (before ++ .scope head items :: after) (before ++ .scope head items' :: after)

/-- Whether an event draws an arc. -/
def Event.drawsArc : Event → Bool
  | .command (.shape (.arc _) _) => true
  | _ => false

/-- The events of the two documents differ in those of the item and of its
block. -/
theorem Item.Unbrackets.exists_events {items items' : List Item} (h : Unbrackets items items') :
    ∃ (item bare : Item) (ps : List Param) (before after : List Event), item.Carries ps bare ∧
      eventsOfAll items = before ++ item.events ++ after ∧
      eventsOfAll items'
        = before ++ (Item.scope .block [.command (.set ps), bare]).events ++ after := by
  induction h with
  | @here item bare ps before after hitem =>
      refine ⟨item, bare, ps, eventsOfAll before, eventsOfAll after, hitem, ?_, ?_⟩
      · rw [eventsOfAll_append, eventsOfAll, List.append_assoc]
      · rw [eventsOfAll_append, eventsOfAll, List.append_assoc]
  | @within items items' before head after _ ih =>
      obtain ⟨item, bare, ps, inner, rest, hitem, hitems, hitems'⟩ := ih
      refine ⟨item, bare, ps, eventsOfAll before ++ .enter head :: inner,
        rest ++ .exit head.kind :: eventsOfAll after, hitem, ?_, ?_⟩
      · rw [eventsOfAll_append, eventsOfAll, events, hitems]
        simp only [List.append_assoc, List.cons_append, List.nil_append]
      · rw [eventsOfAll_append, eventsOfAll, events, hitems']
        simp only [List.append_assoc, List.cons_append, List.nil_append]

variable {α : Type}

/-! ## Arcs that a line may close -/

/-- How an arc is drawn; nothing for an outline that is no arc. -/
def Outline.arcStyle? : Outline α → Option ArcStyle
  | .arc a => some a.style
  | _ => none

/-- An arc that is drawn without a chord and without a wedge. -/
def Figure.IsOpenArc (f : Figure α) : Prop := f.outline.arcStyle? = some .arc

/-- No arc among some shapes, at any depth, may be closed. -/
def NoOpenArc (shapes : List (Shape α)) : Prop :=
  Grouping.AllLeaves (fun f => ¬ f.IsOpenArc) shapes

theorem Outline.arcStyle?_eq_none {o : Outline α} (h : o.kind ≠ .arc) : o.arcStyle? = none := by
  cases o with
  | arc a => exact absurd rfl h
  | _ => rfl

theorem Figure.not_isOpenArc {f : Figure α} (h : f.outline.kind ≠ .arc) : ¬ f.IsOpenArc := by
  intro hf
  have hnone := Outline.arcStyle?_eq_none h
  cases hnone.symm.trans hf

variable [Scalar α]

theorem Outline.arcStyle?_translate (o : Outline α) (dx dy : α) :
    (o.translate dx dy).arcStyle? = o.arcStyle? := by
  cases o <;> rfl

theorem Exit.isOpenArc_move (e : Exit α) (f : Figure α) :
    (e.move f).IsOpenArc ↔ f.IsOpenArc := by
  cases e with
  | keep => rfl
  | place position angle =>
      show (Outline.translate (Outline.translate f.outline _ _) _ _).arcStyle? = _ ↔ _
      rw [Outline.arcStyle?_translate, Outline.arcStyle?_translate]
      rfl
  | turn center angle =>
      show (Outline.translate f.outline _ _).arcStyle? = _ ↔ _
      rw [Outline.arcStyle?_translate]
      rfl

/-! ## Commands other than arcs -/

namespace ShapeCommand

/-- The outlines of a wedge are no arcs that a line may close, and neither are
those of another kind. -/
theorem arcStyle?_of_mem_outlines? {command : ShapeCommand}
    (h : ∀ clockwise, command ≠ .arc clockwise) {c : Context α} {a : Arguments} {ds : Drawn α}
    (hds : command.outlines? c a = some ds) : ∀ d ∈ ds, d.1.arcStyle? ≠ some .arc := by
  intro d hd
  have hkind : d.1.kind = command.kind := command.draws_outlines? c a ds hds d hd
  cases command with
  | arc clockwise => exact absurd rfl (h clockwise)
  | wedge =>
      simp only [outlines?, arc?, bind, Option.bind_eq_some_iff, pure, Option.some.injEq] at hds
      obtain ⟨_, -, _, -, _, -, _, -, rfl⟩ := hds
      obtain rfl := List.mem_singleton.mp hd
      intro hstyle
      cases hstyle
  | _ =>
      have hne : d.1.kind ≠ .arc := by
        rw [hkind]
        exact of_decide_eq_true rfl
      rw [Outline.arcStyle?_eq_none hne]
      exact (Option.some_ne_none _).symm

theorem arcStyle?_finish (command : ShapeCommand) (c : Context α) (a : Arguments)
    (d : Outline α × α) : (command.finish c a d).outline.arcStyle? = d.1.arcStyle? := by
  have hturn (f : Figure α) : (f.turnBy c).outline.arcStyle? = f.outline.arcStyle? := by
    unfold Figure.turnBy
    split
    · rfl
    · exact Outline.arcStyle?_translate _ _ _
  unfold finish
  rw [hturn]
  obtain ⟨o, rotation⟩ := d
  split
  · cases o <;> rfl
  · rfl

theorem not_isOpenArc_of_mem_figures? {command : ShapeCommand}
    (h : ∀ clockwise, command ≠ .arc clockwise) {c : Context α} {palette : Palette α}
    {a : Arguments} {fs : List (Figure α)} (hfs : command.figures? c palette a = some fs) :
    ∀ f ∈ fs, ¬ f.IsOpenArc := by
  obtain ⟨ds, hds, rfl⟩ := Option.map_eq_some_iff.mp hfs
  refine List.forall_mem_map.mpr fun d hd => ?_
  rw [Figure.IsOpenArc, arcStyle?_finish]
  exact arcStyle?_of_mem_outlines? h hds d hd

end ShapeCommand

theorem Scope.not_isOpenArc_of_mem_figures {o : Options α} {palette : Palette α} {s : Scope α}
    {c : Command} (h : (Event.command c).drawsArc = false) :
    ∀ f ∈ s.figures o palette c, ¬ f.IsOpenArc := by
  intro f hf
  cases c with
  | shape command a =>
      have hcommand : ∀ clockwise, command ≠ .arc clockwise := by
        rintro clockwise rfl
        cases h
      cases hfs : command.figures? s.context palette a with
      | none => simp [figures, hfs] at hf
      | some fs =>
          exact ShapeCommand.not_isOpenArc_of_mem_figures? hcommand hfs f
            (by simpa [figures, hfs] using hf)
  | includePicture params path =>
      have hpicture : picture? o s.context params path = some f := by simpa [figures] using hf
      obtain ⟨size, -, hfigure⟩ := Option.bind_eq_some_iff.mp hpicture
      have hkind : f.outline.kind = .picture := Inclusion.kind_of_figure? hfigure
      exact Figure.not_isOpenArc (hkind ▸ by decide)
  | set | framedBox | defineColor | newColor | useColor | textColor | path | text => cases hf

/-! ## Drawing where no arc is open -/

section Draw

variable {tolerance : α} {drawn : List (Shape α)}

/-- Nothing is taken in where no arc is open. -/
theorem draw_of_noOpenArc (h : NoOpenArc drawn) (s : Shape α) :
    draw tolerance drawn s = s :: drawn := by
  refine draw_of_not_closes fun last hlast hcloses => ?_
  obtain ⟨f, -, a, -, -, rfl, -, ha, -, hstyle, -⟩ := hcloses
  obtain ⟨rest, rfl⟩ := List.head?_eq_some_iff.mp hlast
  refine (Grouping.allLeaves_cons_one.mp h).1 ?_
  rw [Figure.IsOpenArc, ha, Outline.arcStyle?, hstyle]

theorem foldl_draw_of_noOpenArc {fs : List (Figure α)} (h : NoOpenArc drawn)
    (hfs : ∀ f ∈ fs, ¬ f.IsOpenArc) :
    (fs.map .one).foldl (draw tolerance) drawn = (fs.map .one).reverse ++ drawn := by
  induction fs generalizing drawn with
  | nil => rfl
  | cons f fs ih =>
      obtain ⟨hf, hfs⟩ := List.forall_mem_cons.mp hfs
      rw [List.map_cons, List.foldl_cons, draw_of_noOpenArc h,
        ih (Grouping.allLeaves_cons_one.mpr ⟨hf, h⟩) hfs, List.reverse_cons, List.append_assoc]
      rfl

end Draw

namespace Scope

/-! ## Scopes that differ in the grouping of their shapes -/

/-- Two scopes with the same shapes, grouped in different ways, and no arc among
them that a line may close. -/
structure Alike (s t : Scope α) : Prop where
  rest : t = { s with drawn := t.drawn }
  drawn : Grouping.collapseAll s.drawn = Grouping.collapseAll t.drawn
  noOpenArc : NoOpenArc s.drawn

namespace Alike

variable {s t s' t' : Scope α}

omit [Scalar α] in
theorem refl (h : NoOpenArc s.drawn) : s.Alike s := ⟨rfl, rfl, h⟩

omit [Scalar α] in
theorem context (h : s.Alike t) : t.context = s.context := by rw [h.rest]

omit [Scalar α] in
theorem noOpenArc_right (h : s.Alike t) : NoOpenArc t.drawn :=
  (Grouping.allLeaves_congr h.drawn).mp h.noOpenArc

/-- Both scopes may be given the same further figures. -/
theorem collapseAll_draw (h : s.Alike t) (tolerance : α) {fs : List (Figure α)}
    (hfs : ∀ f ∈ fs, ¬ f.IsOpenArc) :
    Grouping.collapseAll ((fs.map .one).foldl (PictureTree.draw tolerance) s.drawn)
        = Grouping.collapseAll ((fs.map .one).foldl (PictureTree.draw tolerance) t.drawn) ∧
      NoOpenArc ((fs.map .one).foldl (PictureTree.draw tolerance) s.drawn) := by
  rw [foldl_draw_of_noOpenArc h.noOpenArc hfs, foldl_draw_of_noOpenArc h.noOpenArc_right hfs]
  refine ⟨?_, ?_⟩
  · rw [Grouping.collapseAll_append, Grouping.collapseAll_append, h.drawn]
  · exact Grouping.allLeaves_append.mpr
      ⟨Grouping.allLeaves_reverse.mpr (Grouping.allLeaves_map_one.mpr hfs), h.noOpenArc⟩

theorem obey (h : s.Alike t) (o : Options α) (palette : Palette α) {c : Command}
    (hc : (Event.command c).drawsArc = false) :
    (s.obey o palette c).Alike (t.obey o palette c) := by
  obtain ⟨drawn, rfl⟩ : ∃ drawn, t = { s with drawn := drawn } := ⟨_, h.rest⟩
  have hfigures : ({ s with drawn := drawn } : Scope α).figures o palette c
      = s.figures o palette c := by cases c <;> rfl
  obtain ⟨hdrawn, hopen⟩ :=
    h.collapseAll_draw o.chordTolerance (not_isOpenArc_of_mem_figures (o := o) hc)
  refine ⟨s.obey_with_drawn o palette c drawn, ?_, ?_⟩
  · rw [drawn_obey, drawn_obey, hfigures]
    exact hdrawn
  · rw [drawn_obey]
    exact hopen

theorem ended (h : s.Alike t) (o : Options α) (kind : ScopeKind) :
    (s.ended o kind).Alike (t.ended o kind) := by
  obtain ⟨drawn, rfl⟩ : ∃ drawn, t = { s with drawn := drawn } := ⟨_, h.rest⟩
  have hfigures : ({ s with drawn := drawn } : Scope α).lastFigures kind = s.lastFigures kind := by
    cases kind <;> rfl
  have hfs : ∀ f ∈ s.lastFigures kind, ¬ f.IsOpenArc := by
    intro f hf
    have hkind : f.outline.kind = .freehand := kind_of_mem_lastFigures hf
    refine Figure.not_isOpenArc ?_
    rw [hkind]
    nofun
  obtain ⟨hdrawn, hopen⟩ := h.collapseAll_draw o.chordTolerance hfs
  refine ⟨?_, ?_, ?_⟩
  · cases kind with
    | picture | block | place | turn => rfl
    | custom =>
        simp only [Scope.ended, flush]
        split
        · rfl
        · rw [emitAll_eq, emitAll_eq]
  · rw [drawn_ended, drawn_ended, hfigures]
    exact hdrawn
  · rw [drawn_ended]
    exact hopen

/-- The shapes that the scopes end with, their text among them. -/
theorem collapseAll_shapes (h : s.Alike t) :
    Grouping.collapseAll s.shapes = Grouping.collapseAll t.shapes := by
  have htext : t.textFigure? = s.textFigure? := by
    rw [h.rest]
    rfl
  rw [shapes, shapes, htext]
  exact Grouping.collapseAll_append_congr (Grouping.collapseAll_reverse_congr h.drawn) _

theorem noOpenArc_shapes (h : NoOpenArc s.drawn) : NoOpenArc s.shapes := by
  refine Grouping.allLeaves_append.mpr
    ⟨Grouping.allLeaves_reverse.mpr h, Grouping.allLeaves_map_one.mpr fun f hf => ?_⟩
  rw [Option.mem_toList, textFigure?] at hf
  split at hf
  · cases hf
  · obtain rfl := Option.some.inj hf
    exact Figure.not_isOpenArc nofun

/-- The groups of two scopes in two others. -/
theorem emit_leave (h : s.Alike t) (h' : s'.Alike t') (o : Options α) :
    (s.emit o s'.leave).Alike (t.emit o t'.leave) := by
  have hmembers (u : Scope α) : u.members = Grouping.mapAll u.exit.move u.shapes := by
    rw [members, Grouping.mapAll_eq_map]
    exact List.map_congr_left fun shape _ => u.exit.apply_eq_map shape
  have hexit : t'.exit = s'.exit := by rw [h'.rest]
  rw [Scope.emit_leave, Scope.emit_leave, hmembers, hmembers, hexit]
  refine ⟨?_, ?_, ?_⟩
  · rw [h.rest]
  · exact Grouping.collapseAll_group_congr
      (Grouping.collapseAll_mapAll_congr h'.collapseAll_shapes _) h.drawn
  · refine Grouping.allLeaves_cons_group.mpr ⟨?_, h.noOpenArc⟩
    rw [Grouping.AllLeaves, Grouping.leavesOfAll_mapAll]
    refine List.forall_mem_map.mpr fun f hf hopen => ?_
    exact noOpenArc_shapes h'.noOpenArc f hf ((s'.exit.isOpenArc_move f).mp hopen)

end Alike

end Scope

namespace Canvas

/-! ## Canvases that differ in the grouping of their shapes -/

/-- Two canvases with the same palette and the same open scopes, in which the
shapes may be grouped in different ways. -/
structure Alike (c d : Canvas α) : Prop where
  palette : d.palette = c.palette
  root : c.root.Alike d.root
  opened : List.Forall₂ Scope.Alike c.opened d.opened

namespace Alike

variable {c d : Canvas α}

theorem blank (o : Options α) (palette : Palette α) :
    (Canvas.blank o palette).Alike (.blank o palette) :=
  ⟨rfl, .refl Grouping.allLeaves_nil, .nil⟩

omit [Scalar α] in
theorem innermost (h : c.Alike d) : c.innermost.Alike d.innermost := by
  rcases c with ⟨p, root, opened⟩
  rcases d with ⟨q, root', opened'⟩
  cases h.opened with
  | nil => exact h.root
  | cons hs _ => exact hs

omit [Scalar α] in
theorem put (h : c.Alike d) (palette : Palette α) {s t : Scope α} (hst : s.Alike t) :
    (c.put (palette, s)).Alike (d.put (palette, t)) := by
  rcases c with ⟨p, root, opened⟩
  rcases d with ⟨q, root', opened'⟩
  cases h.opened with
  | nil => exact ⟨rfl, hst, .nil⟩
  | cons _ hrest => exact ⟨rfl, h.root, .cons hst hrest⟩

omit [Scalar α] in
theorem push (h : c.Alike d) {s t : Scope α} (hst : s.Alike t) : (c.push s).Alike (d.push t) :=
  ⟨h.palette, h.root, .cons hst h.opened⟩

/-- Every event but an arc keeps two canvases alike. -/
theorem step (h : c.Alike d) (o : Options α) {e : Event} (he : e.drawsArc = false) :
    (c.step o e).Alike (d.step o e) := by
  cases e with
  | enter head =>
      have hcontext : d.innermost.context = c.innermost.context := h.innermost.context
      rw [step_enter, step_enter, hcontext, h.palette]
      refine h.push (.refl ?_)
      rw [Scope.drawn_begin]
      exact Grouping.allLeaves_nil
  | command k =>
      rw [step_command, step_command, h.palette]
      exact h.put _ (h.innermost.obey o c.palette he)
  | exit kind =>
      rcases c with ⟨p, root, opened⟩
      rcases d with ⟨q, root', opened'⟩
      obtain rfl : q = p := h.palette
      cases hopened : h.opened with
      | nil =>
          cases kind with
          | picture | block | place | turn => exact ⟨rfl, h.root, .nil⟩
          | custom => exact ⟨rfl, h.root.ended o .custom, .nil⟩
      | @cons s t outer outer' hst hrest =>
          have hinner : (Canvas.mk q root outer).Alike (Canvas.mk q root' outer') :=
            ⟨rfl, h.root, hrest⟩
          have hstep := hinner.put q (hinner.innermost.emit_leave (hst.ended o kind) o)
          rw [← step_exit_push, ← step_exit_push] at hstep
          exact hstep

theorem run (h : c.Alike d) (o : Options α) {events : List Event}
    (hevents : ∀ e ∈ events, e.drawsArc = false) : (c.run o events).Alike (d.run o events) := by
  induction events generalizing c d with
  | nil => exact h
  | cons e events ih =>
      obtain ⟨he, hevents⟩ := List.forall_mem_cons.mp hevents
      exact ih (h.step o he) hevents

end Alike

end Canvas

/-! ## One item -/

namespace Context

/-- Parameters set outside or inside a new scope. -/
theorem child_setAll (c : Context α) (palette : Palette α) (ps : List Param) :
    (c.setAll palette ps).child = c.child.setAll palette ps := by
  refine setAll_relates (R := fun c d => c.child = d) ?_ ?_ rfl ps
  · rintro c _ rfl
    rfl
  · rintro c _ s rfl
    cases s <;> rfl

end Context

/-- A head begins the same scope with its parameters set before it. -/
theorem ScopeHead.Carries.begin_eq {head bare : ScopeHead} {ps : List Param}
    (h : head.Carries ps bare) (palette : Palette α) (outer : Context α) :
    Scope.begin palette (outer.child.setAll palette ps) bare = Scope.begin palette outer head := by
  have hchild : (outer.child.setAll palette ps).child = outer.child.setAll palette ps :=
    outer.child.child_setAll palette ps
  cases h with
  | picture | custom | turn =>
      simp only [Scope.begin, hchild]
      rfl

namespace ShapeCommand

/-- A command draws the same with its parameters set before it. -/
theorem figures?_bare (command : ShapeCommand) (c : Context α) (palette : Palette α)
    (a : Arguments) :
    command.figures? (c.child.setAll palette a.params) palette { a with params := [] }
      = command.figures? c palette a := by
  rw [← Context.child_setAll]
  -- neither the text of a context nor the parameters, once they are set, are looked at again
  cases command <;> rfl

variable {n : Nat}

/-- All that is drawn, if anything is, are so many outlines. -/
def Counts (n : Nat) (ds? : Option (Drawn α)) : Prop := ∀ ds ∈ ds?, ds.length = n

omit [Scalar α] in
theorem counts_none : Counts n (none : Option (Drawn α)) := nofun

omit [Scalar α] in
theorem counts_one (d : Outline α × α) : Counts 1 (some [d]) := by
  rintro _ ⟨⟩
  rfl

omit [Scalar α] in
theorem counts_bind {β : Type} (b? : Option β) {f : β → Option (Drawn α)}
    (h : ∀ b, Counts n (f b)) : Counts n (b? >>= f) := by
  cases b? with
  | none => exact counts_none
  | some b => exact h b

/-- Every command but that for several dots draws one figure, if it draws any. -/
theorem counts_outlines? {command : ShapeCommand} (h : command ≠ .dots) (c : Context α)
    (a : Arguments) : Counts 1 (command.outlines? c a) := by
  cases command with
  | dots => exact absurd rfl h
  | frame =>
      show Counts 1 (frame? c a)
      unfold frame?
      split
      · exact counts_none
      · exact counts_bind _ fun _ => counts_one _
      · exact counts_bind _ fun _ => counts_bind _ fun _ => counts_one _
  | segment | grid | axes | dot => exact counts_bind _ fun _ => counts_one _
  | circle | disk | bezier => exact counts_bind _ fun _ => counts_bind _ fun _ => counts_one _
  | diamond | ellipse | triangle =>
      exact counts_bind _ fun _ => counts_bind _ fun _ => counts_bind _ fun _ => counts_one _
  | wedge | arc =>
      exact counts_bind _ fun _ => counts_bind _ fun _ => counts_bind _ fun _ => counts_bind _ fun _ =>
        counts_one _
  | plot =>
      exact counts_bind _ fun _ => counts_bind _ fun _ => counts_bind _ fun _ => counts_bind _ fun _ =>
        counts_bind _ fun _ => counts_bind _ fun _ => counts_one _
  | line =>
      refine counts_bind _ fun ps => ?_
      split <;> exact counts_one _
  | polygon | curve =>
      refine counts_bind _ fun ps => ?_
      split
      · exact counts_none
      · exact counts_none
      all_goals exact counts_one _

/-- The figure that a command draws, if it draws any. -/
theorem exists_figures?_eq {command : ShapeCommand} (h : command ≠ .dots) (c : Context α)
    (palette : Palette α) (a : Arguments) :
    ∃ f? : Option (Figure α), (command.figures? c palette a).getD [] = f?.toList := by
  cases hds : command.outlines? (context c palette a) a with
  | none => exact ⟨none, by simp [figures?, hds]⟩
  | some ds =>
      obtain ⟨d, rfl⟩ := List.length_eq_one_iff.mp (counts_outlines? h _ a ds hds)
      exact ⟨some (command.finish (context c palette a) a d), by simp [figures?, hds]⟩

end ShapeCommand

/-- A pair of braces without a text leaves the shapes drawn in it. -/
theorem Scope.emit_leave_ofContext (o : Options α) (s : Scope α) {c : Context α}
    (hc : c.text = []) (drawn : List (Shape α)) :
    s.emit o ({ ofContext c with drawn := drawn } : Scope α).leave
      = { s with drawn := .group drawn.reverse :: s.drawn } := by
  have hshapes : ({ ofContext c with drawn := drawn } : Scope α).shapes = drawn.reverse := by
    have htext : ({ ofContext c with drawn := drawn } : Scope α).textFigure? = none := by
      simp [textFigure?, ofContext, hc]
    rw [shapes, htext]
    exact List.append_nil _
  rw [Scope.emit_leave, members, hshapes]
  exact congrArg (fun ms => ({ s with drawn := .group ms :: s.drawn } : Scope α))
    (List.map_id' _)

namespace Item

/-- An item draws one shape more, or none, and its block draws the group of
this. -/
theorem Carries.exists_drawIn_eq {item bare : Item} {ps : List Param} (h : item.Carries ps bare)
    (o : Options α) (p : Palette α) {s : Scope α} (hs : NoOpenArc s.drawn) :
    ∃ (q : Palette α) (shape? : Option (Shape α)),
      item.drawIn o (p, s) = (q, { s with drawn := shape?.toList ++ s.drawn }) ∧
      (Item.scope .block [.command (.set ps), bare]).drawIn o (p, s)
        = (q, { s with drawn := .group shape?.toList :: s.drawn }) := by
  let context := s.context.child.setAll p ps
  have htext : context.text = [] := (congrArg Context.text (s.context.child_setAll p ps)).symm
  have hblock (bare : Item) {q : Palette α} {drawn : List (Shape α)}
      (hbare : bare.drawIn o (p, .ofContext context)
        = (q, { Scope.ofContext context with drawn := drawn })) :
      (Item.scope .block [.command (.set ps), bare]).drawIn o (p, s)
        = (q, { s with drawn := .group drawn.reverse :: s.drawn }) := by
    show ((bare.drawIn o (p, .ofContext context)).1,
      s.emit o (bare.drawIn o (p, .ofContext context)).2.leave) = _
    rw [hbare, Scope.emit_leave_ofContext o s htext]
  cases h with
  | @shape command a hcommand =>
      have hdots : command ≠ .dots := by
        rintro rfl
        cases hcommand
      obtain ⟨f?, hf?⟩ := ShapeCommand.exists_figures?_eq hdots s.context p a
      have hobey (t : Scope α) (b : Arguments) (ht : NoOpenArc t.drawn)
          (hfigures : command.figures? t.context p b = command.figures? s.context p a) :
          t.obey o p (.shape command b)
            = { t with drawn := (f?.map .one).toList ++ t.drawn } := by
        show t.emitAll o ((command.figures? t.context p b).getD []) = _
        rw [hfigures, hf?, Scope.emitAll_eq]
        cases f? with
        | none => rfl
        | some f => exact congrArg (fun drawn => { t with drawn := drawn }) (draw_of_noOpenArc ht _)
      have hbare := hobey (.ofContext context) { a with params := [] } Grouping.allLeaves_nil
        (command.figures?_bare s.context p a)
      refine ⟨p, f?.map .one, congrArg (p, ·) (hobey s a hs rfl), ?_⟩
      rw [hblock (.command (.shape command { a with params := [] })) (congrArg (p, ·) hbare)]
      cases f? <;> rfl
  | @scope head bare ps items hhead =>
      let inside := drawAllIn o items (p, .begin p s.context head)
      let group : Shape α := .group (inside.2.ended o head.kind).members
      have hkind : bare.kind = head.kind := by cases hhead <;> rfl
      have hdraw (head' : ScopeHead) (t : Scope α)
          (hbegin : Scope.begin p t.context head' = Scope.begin p s.context head)
          (hkind : head'.kind = head.kind) :
          (Item.scope head' items).drawIn o (p, t)
            = (inside.1, { t with drawn := group :: t.drawn }) := by
        show ((drawAllIn o items (p, .begin p t.context head')).1,
          t.emit o ((drawAllIn o items (p, .begin p t.context head')).2.ended o head'.kind).leave)
            = _
        rw [hbegin, hkind, Scope.emit_leave]
      refine ⟨inside.1, some group, hdraw head s rfl rfl, ?_⟩
      exact hblock _ (hdraw bare (.ofContext context) (hhead.begin_eq p s.context) hkind)

end Item

namespace Canvas

/-- An item and its block draw the same up to a group, where no arc is open. -/
theorem Alike.run_block {c : Canvas α} (hc : c.Alike c) (o : Options α) {item bare : Item}
    {ps : List Param} (h : item.Carries ps bare)
    (harcs : ∀ e ∈ item.events, e.drawsArc = false) :
    (c.run o item.events).Alike
      (c.run o (Item.scope .block [.command (.set ps), bare]).events) := by
  obtain ⟨q, shape?, hitem, hblock⟩ :=
    h.exists_drawIn_eq o c.palette (s := c.innermost) hc.innermost.noOpenArc
  have hdrawn : NoOpenArc (shape?.toList ++ c.innermost.drawn) := by
    have hrun : NoOpenArc (c.run o item.events).here.2.drawn :=
      (hc.run o harcs).innermost.noOpenArc
    rw [run_events, here_put, here, hitem] at hrun
    exact hrun
  rw [run_events, run_events, here, hitem, hblock]
  refine hc.put q ⟨rfl, ?_, hdrawn⟩
  cases shape? with
  | none => rfl
  | some shape => exact (Grouping.collapseAll_group_single shape _).symm

/-- A document without arcs means the same with the parameters of one of its
items, which stands at any depth, set in braces around the item. -/
theorem finish_unbracketed (o : Options α) (palette : Palette α) {items items' : List Item}
    (harcs : ∀ e ∈ Item.eventsOfAll items, e.drawsArc = false)
    (h : Item.Unbrackets items items') :
    (drawItems o palette items).finish o = (drawItems o palette items').finish o ∧
      (drawItems o palette items).palette = (drawItems o palette items').palette := by
  obtain ⟨item, bare, ps, before, after, hitem, hitems, hitems'⟩ := h.exists_events
  simp only [hitems, List.forall_mem_append] at harcs
  obtain ⟨⟨hbefore, hinside⟩, hafter⟩ := harcs
  have halike : (drawItems o palette items).Alike (drawItems o palette items') := by
    rw [drawItems, drawItems, hitems, hitems']
    simp only [run_append]
    exact (((Alike.blank o palette).run o hbefore).run_block o hitem hinside).run o hafter
  refine ⟨?_, halike.palette.symm⟩
  rw [finish_drawItems, finish_drawItems, ← root_drawItems, ← root_drawItems]
  exact Grouping.flatten_congr halike.root.collapseAll_shapes

/-- A frame with a unit of its own, in a placed scope. -/
theorem finish_unbracketed_placed_frame :
    let source := "\\rput(1,1)\x7b\\psframe[unit=2cm](1,1)x\x7d"
    let source' := "\\rput(1,1)\x7b\x7b\\psset\x7bunit=2cm\x7d\\psframe(1,1)\x7dx\x7d"
    ∃ items items' : List Item,
      Item.ofSource? source = some items ∧ Item.ofSource? source' = some items' ∧
      (∀ e ∈ Item.eventsOfAll items, e.drawsArc = false) ∧ Item.Unbrackets items items' ∧
      (drawItems (.standard : Options Float) .predefined items).finish .standard
        = (drawItems .standard .predefined items').finish .standard ∧
      (drawItems (.standard : Options Float) .predefined items).palette
        = (drawItems .standard .predefined items').palette := by
  intro source source'
  let corner : Coord := .cartesian ⟨.decimal false 1 0, none⟩ ⟨.decimal false 1 0, none⟩
  let place : ScopeHead := .place false none none corner
  let frame (ps : List Param) : Item := .command (.shape .frame ⟨false, ps, none, [corner], []⟩)
  let unit : List Param := [⟨"unit", "2cm"⟩]
  let items : List Item := [.scope place [frame unit, .command (.text "x")]]
  let items' : List Item :=
    [.scope place [.scope .block [.command (.set unit), frame []], .command (.text "x")]]
  have hitems : Item.ofSource? source = some items := by cbv
  have hitems' : Item.ofSource? source' = some items' := by cbv
  have harcs : ∀ e ∈ Item.eventsOfAll items, e.drawsArc = false := by decide
  have hframe : (frame unit).Carries unit (frame []) := .shape ⟨false, unit, none, [corner], []⟩ rfl
  have h : Item.Unbrackets items items' := .within [] place [] (.here [] [.command (.text "x")] hframe)
  exact ⟨items, items', hitems, hitems', harcs, h, finish_unbracketed .standard .predefined harcs h⟩

end Canvas

end PictureTree
