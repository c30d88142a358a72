/-
# `Proofs.Canvas.Starred` — what a star overrides

A starred figure is filled with the colour of its lines, which are solid and lie
inside the border, and it has no shadow and no double border.  There are three ways
on which a figure gets its styles, by a shape command, by an arc that may be
reversed, and by the path of a custom path when it ends; the star counts on all of
them.

Six settings say what the star says otherwise (`Overridden`), and of these nothing
is left: a context and the same context with these six settings changed,

    restyle   v    the context with other overridden settings

draw the same starred figures.  For a single command that is because no outline
depends on them.  A custom path has a body that may set parameters, so there it is a
relation of two runs, which every item of the body keeps (`Scope.Restyles`).
-/
import PictureTree.Proofs.Canvas.Chords
import PictureTree.Proofs.Context.Settings
import PictureTree.Scalar.Double

namespace PictureTree

variable {α : Type}

/-! ## The overridden settings -/

/-- The settings that a star overrides. -/
structure Overridden (α : Type) where
  lineStyle : LineStyle
  border : BorderPosition
  fillStyle : FillingStyle
  fillColor : Color α
  shadow : Bool
  doubleLine : Bool

/-- The context with other overridden settings. -/
def Context.restyle (c : Context α) (v : Overridden α) : Context α :=
  { c with
    stroke := { c.stroke with style := v.lineStyle, border := v.border }
    filling := { c.filling with style := v.fillStyle, color := v.fillColor }
    shadow := { c.shadow with enabled := v.shadow }
    double := { c.double with enabled := v.doubleLine } }

/-- The canvas with other overridden settings in its innermost scope. -/
def Canvas.restyle (c : Canvas α) (v : Overridden α) : Canvas α :=
  c.change fun s => { s with context := s.context.restyle v }

/-- Solid lines inside the border, an area of their colour, no shadow and no double
border. -/
structure Paint.IsStarred (p : Paint α) : Prop where
  filled : ∃ stroke filling, p.stroke = some stroke ∧ p.filling = some filling ∧
    stroke.style = .solid ∧ stroke.border = .into ∧
    filling.style = .plain ∧ filling.color = stroke.color
  shadow : ∃ shadow, p.shadow = some shadow ∧ shadow.enabled = false
  doubleBorder : ∀ border ∈ p.doubleBorder, border.enabled = false

/-- Whether a command draws figures with lines and an area that are starred: disks
always, and what has no lines, no area or no starred form never. -/
def ShapeCommand.isFilledByStar (a : Arguments) : ShapeCommand → Bool
  | .disk => true
  | .frame | .diamond | .triangle | .ellipse | .circle | .wedge | .arc _ | .line | .polygon
  | .bezier | .plot _ | .curve _ => a.starred
  | .segment | .dot | .dots | .grid | .axes => false

variable [Scalar α]

/-! ## Starred figures -/

/-- The star sets the records of every figure with an area, whatever the context. -/
theorem Paint.isStarred_starred {k : FigureKind} (hk : k.hasFilling = true) (c : Context α) :
    (Paint.ofContext k c).starred.IsStarred := by
  cases k <;> first
    | exact ⟨⟨_, _, rfl, rfl, rfl, rfl, rfl, rfl⟩, ⟨_, rfl, rfl⟩, by rintro _ ⟨⟩ <;> rfl⟩
    | cases hk

/-- The star leaves nothing of the settings that it overrides. -/
theorem Paint.starred_restyle (k : FigureKind) (c : Context α) (v : Overridden α) :
    (Paint.ofContext k (c.restyle v)).starred = (Paint.ofContext k c).starred := by
  cases k <;> rfl

namespace Figure

variable {f : Figure α}

theorem isStarred_dress (hf : f.kind.hasFilling = true) (c : Context α) :
    (f.dress c true).paint.IsStarred :=
  Paint.isStarred_starred hf c

theorem dress_restyle (f : Figure α) (c : Context α) (v : Overridden α) :
    f.dress (c.restyle v) true = f.dress c true :=
  congrArg (fun paint => { f with paint := paint }) (Paint.starred_restyle f.kind c v)

omit [Scalar α] in
/-- Neither the reversal of an arc nor a rotation changes what a star has set. -/
theorem isStarred_reversed (hf : f.paint.IsStarred) : f.reversed.paint.IsStarred := by
  rcases f with ⟨outline, rotation, paint⟩
  cases outline <;> exact ⟨hf.filled, hf.shadow, hf.doubleBorder⟩

theorem paint_turnBy (f : Figure α) (c : Context α) : (f.turnBy c).paint = f.paint := by
  unfold turnBy
  split <;> rfl

end Figure

/-! ## Shape commands -/

namespace ShapeCommand

variable {command : ShapeCommand} {a : Arguments}

omit [Scalar α] in
theorem isStarred_of_isFilledByStar (h : command.isFilledByStar a = true) :
    command.isStarred a = true := by
  cases command <;> first
    | exact h
    | rfl
    | cases h

theorem hasFilling_of_isFilledByStar (h : command.isFilledByStar a = true) :
    command.kind.hasFilling = true := by
  cases command <;> first
    | rfl
    | cases h

theorem isStarred_finish (h : command.isFilledByStar a = true) {o : Outline α × α}
    (ho : o.1.kind = command.kind) (c : Context α) :
    (command.finish c a o).paint.IsStarred := by
  have hfilling : (Figure.ofOutline o.1 o.2).kind.hasFilling = true := by
    rw [Figure.kind, Figure.ofOutline, ho]
    exact hasFilling_of_isFilledByStar h
  have hdressed := Figure.isStarred_dress hfilling c
  unfold finish
  rw [isStarred_of_isFilledByStar h, Figure.paint_turnBy]
  split
  · exact Figure.isStarred_reversed hdressed
  · exact hdressed

theorem finish_restyle (h : command.isFilledByStar a = true) (c : Context α) (v : Overridden α)
    (o : Outline α × α) : command.finish (c.restyle v) a o = command.finish c a o := by
  unfold finish
  rw [isStarred_of_isFilledByStar h, Figure.dress_restyle]
  rfl

/-- No outline with an area depends on what a star overrides. -/
theorem outlines?_restyle (h : command.isFilledByStar a = true) (c : Context α)
    (v : Overridden α) : command.outlines? (c.restyle v) a = command.outlines? c a := by
  cases command <;> first
    | rfl
    | cases h

end ShapeCommand

/-! ## Settings on both sides -/

namespace Context

/-- A setting either is one of those overridden or does not look at them. -/
theorem exists_put_restyle (c : Context α) (v : Overridden α) (s : Setting α) :
    ∃ w, (c.restyle v).put s = (c.put s).restyle w := by
  cases s with
  | stroke s =>
      cases s with
      | style l => exact ⟨{ v with lineStyle := l }, rfl⟩
      | border b => exact ⟨{ v with border := b }, rfl⟩
      | opacity o =>
          refine ⟨v, ?_⟩
          simp only [put, Stroke.put]
          split <;> rfl
      | _ => exact ⟨v, rfl⟩
  | filling s =>
      cases s with
      | style f => exact ⟨{ v with fillStyle := f }, rfl⟩
      | color k => exact ⟨{ v with fillColor := k }, rfl⟩
      | opacity o =>
          refine ⟨v, ?_⟩
          simp only [put, Filling.put]
          split <;> rfl
      | _ => exact ⟨v, rfl⟩
  | shadow s =>
      cases s with
      | enabled b => exact ⟨{ v with shadow := b }, rfl⟩
      | _ => exact ⟨v, rfl⟩
  | double s =>
      cases s with
      | enabled b => exact ⟨{ v with doubleLine := b }, rfl⟩
      | _ => exact ⟨v, rfl⟩
  | _ => exact ⟨v, rfl⟩

theorem exists_setAll_restyle (c : Context α) (palette : Palette α) (v : Overridden α)
    (ps : List Param) : ∃ w, (c.restyle v).setAll palette ps = (c.setAll palette ps).restyle w := by
  refine setAll_relates (R := fun c d => ∃ w, d = c.restyle w) ?_ ?_ ⟨v, rfl⟩ ps
  · rintro c _ ⟨w, rfl⟩
    rfl
  · rintro c _ s ⟨w, rfl⟩
    exact c.exists_put_restyle w s

end Context

/-- A starred command draws the same figures, whatever the overridden settings are. -/
theorem ShapeCommand.figures?_restyle {command : ShapeCommand} {a : Arguments}
    (h : command.isFilledByStar a = true) (c : Context α) (palette : Palette α)
    (v : Overridden α) :
    command.figures? (c.restyle v) palette a = command.figures? c palette a := by
  obtain ⟨w, hw⟩ := c.exists_setAll_restyle palette v a.params
  have hcontext : context (c.restyle v) palette a = (context c palette a).restyle w := by
    rw [context, hw]
    rfl
  rw [figures?, hcontext, outlines?_restyle h, figures?]
  congr 1
  exact congrArg List.map (funext (finish_restyle h _ w))

theorem ShapeCommand.isStarred_of_mem_figures? {command : ShapeCommand} {a : Arguments}
    (h : command.isFilledByStar a = true) {c : Context α} {palette : Palette α}
    {fs : List (Figure α)} (hfs : command.figures? c palette a = some fs) :
    ∀ f ∈ fs, f.paint.IsStarred := by
  obtain ⟨ds, hds, rfl⟩ := Option.map_eq_some_iff.mp hfs
  refine List.forall_mem_map.mpr fun d hd => ?_
  exact isStarred_finish h (command.draws_outlines? _ a ds hds d hd) _

/-! ## Two runs through the body of a custom path -/

namespace Scope

/-- Scopes that differ in overridden settings, and perhaps in what is drawn. -/
structure Restyles (s t : Scope α) : Prop where
  context : ∃ v, t.context = s.context.restyle v
  path : t.path = s.path
  starred : t.starred = s.starred

namespace Restyles

variable {s t : Scope α} {o : Options α} {palette : Palette α}

theorem begin {c : Context α} (v : Overridden α) (head : ScopeHead) :
    (Scope.begin palette c head).Restyles (Scope.begin palette (c.restyle v) head) := by
  cases head with
  | picture starred ps corners =>
      obtain ⟨w, hw⟩ := c.child.exists_setAll_restyle palette v ps
      have hchild : (c.restyle v).child = c.child.restyle v := rfl
      refine ⟨⟨w, ?_⟩, rfl, rfl⟩
      simp only [Scope.begin, ofContext]
      rw [hchild, hw]
      rfl
  | block => exact ⟨⟨v, rfl⟩, rfl, rfl⟩
  | custom starred ps =>
      obtain ⟨w, hw⟩ := c.child.exists_setAll_restyle palette v ps
      exact ⟨⟨w, hw⟩, rfl, rfl⟩
  | place => exact ⟨⟨v, rfl⟩, rfl, rfl⟩
  | turn ps center angle =>
      obtain ⟨w, hw⟩ := c.child.exists_setAll_restyle palette v ps
      exact ⟨⟨w, hw⟩, rfl, rfl⟩

theorem emitAll (h : s.Restyles t) (fs gs : List (Figure α)) :
    (s.emitAll o fs).Restyles (t.emitAll o gs) := by
  rw [emitAll_eq, emitAll_eq]
  exact ⟨h.context, h.path, h.starred⟩

omit [Scalar α] in
theorem write (h : s.Restyles t) (word : String) : (s.write word).Restyles (t.write word) := by
  unfold Scope.write
  split
  · exact h
  · obtain ⟨v, hv⟩ := h.context
    exact ⟨⟨v, congrArg (fun c => c.write word) hv⟩, h.path, h.starred⟩

theorem chooseSpec (h : s.Restyles t) (spec : ColorSpec) :
    (s.chooseSpec palette spec).Restyles (t.chooseSpec palette spec) := by
  unfold Scope.chooseSpec
  split
  · next k hk =>
      obtain ⟨v, hv⟩ := h.context
      exact ⟨⟨v, congrArg (fun c => { c with chosenColor := some k }) hv⟩, h.path, h.starred⟩
  · exact h

theorem obey (h : s.Restyles t) (c : Command) :
    (s.obey o palette c).Restyles (t.obey o palette c) := by
  obtain ⟨v, hv⟩ := h.context
  cases c with
  | set ps =>
      obtain ⟨w, hw⟩ := s.context.exists_setAll_restyle palette v ps
      exact ⟨⟨w, (congrArg (fun c => c.setAll palette ps) hv).trans hw⟩, h.path, h.starred⟩
  | shape | includePicture => exact h.emitAll _ _
  | framedBox | text => exact h.write _
  | defineColor | newColor => exact h
  | useColor spec => exact h.chooseSpec spec
  | textColor spec text => exact (h.chooseSpec spec).write text
  | path k =>
      refine ⟨h.context, ?_, h.starred⟩
      -- a path command looks at the units only
      have htrace (path : Path α) : trace? t.context path k = trace? s.context path k := by
        rw [hv]
        cases k <;> rfl
      simp only [Scope.obey, h.path, htrace]

/-- Paths that are starred on both sides are drawn as the same figures. -/
theorem lastFigures (h : s.Restyles t) (hs : s.starred = true) :
    t.lastFigures .custom = s.lastFigures .custom := by
  obtain ⟨v, hv⟩ := h.context
  have hrun (run : PathRun α) : t.runFigure run = s.runFigure run := by
    rw [runFigure, runFigure, hv, h.starred, hs, Figure.dress_restyle]
    rfl
  rw [Scope.lastFigures, Scope.lastFigures, h.path]
  exact List.map_congr_left fun run _ => hrun run

end Restyles

/-- The paths of a starred scope are starred figures. -/
theorem isStarred_of_mem_lastFigures {s : Scope α} (hs : s.starred = true) :
    ∀ f ∈ s.lastFigures .custom, f.paint.IsStarred := by
  refine List.forall_mem_map.mpr fun run _ => ?_
  rw [runFigure, Figure.paint_turnBy, hs]
  exact Figure.isStarred_dress (by rfl) s.context

theorem starred_obey (o : Options α) (palette : Palette α) (s : Scope α) (c : Command) :
    (s.obey o palette c).starred = s.starred := by
  obtain ⟨context, goOn, hobey⟩ := s.exists_obey_eq o palette c
  rw [hobey, emitAll_eq]

/-- The end of a custom path draws its figures, and the path is gone. -/
theorem flush_eq (o : Options α) (s : Scope α) :
    s.flush o = { s.emitAll o (s.lastFigures .custom) with path := none } := by
  obtain ⟨context, drawn, exit, - | path, starred⟩ := s
  · rfl
  · simp only [flush, Scope.lastFigures, undrawn, Option.toList_some, List.flatMap_cons,
      List.flatMap_nil, List.append_nil]

end Scope

mutual

/-- Items keep two runs alike that differ in overridden settings, and go on with
the same palette. -/
theorem Item.restyles_drawIn (o : Options α) :
    ∀ (item : Item) {p : Palette α} {s t : Scope α}, s.Restyles t →
      (item.drawIn o (p, t)).1 = (item.drawIn o (p, s)).1 ∧
        (item.drawIn o (p, s)).2.Restyles (item.drawIn o (p, t)).2
  | .command c, p, s, t, h => ⟨rfl, h.obey c⟩
  | .scope head items, p, s, t, h => by
      obtain ⟨v, hv⟩ := h.context
      have hbegin : (Scope.begin p s.context head).Restyles (Scope.begin p t.context head) := by
        rw [hv]
        exact .begin v head
      refine ⟨(Item.restyles_drawAllIn o items hbegin).1, ?_⟩
      exact ⟨h.context, h.path, h.starred⟩

theorem Item.restyles_drawAllIn (o : Options α) :
    ∀ (items : List Item) {p : Palette α} {s t : Scope α}, s.Restyles t →
      (Item.drawAllIn o items (p, t)).1 = (Item.drawAllIn o items (p, s)).1 ∧
        (Item.drawAllIn o items (p, s)).2.Restyles (Item.drawAllIn o items (p, t)).2
  | [], _, _, _, h => ⟨rfl, h⟩
  | item :: items, p, s, t, h => by
      obtain ⟨hpalette, hitem⟩ := Item.restyles_drawIn o item (p := p) h
      have hafter : item.drawIn o (p, t) = ((item.drawIn o (p, s)).1, (item.drawIn o (p, t)).2) :=
        Prod.ext hpalette rfl
      rw [Item.drawAllIn, Item.drawAllIn, hafter]
      exact Item.restyles_drawAllIn o items hitem

end

theorem Item.starred_drawAllIn (o : Options α) (items : List Item) (h : Palette α × Scope α) :
    (Item.drawAllIn o items h).2.starred = h.2.starred := by
  induction items generalizing h with
  | nil => rfl
  | cons item items ih =>
      rw [Item.drawAllIn, ih]
      cases item with
      | scope head inner => rfl
      | command c => exact h.2.starred_obey o h.1 c

namespace Canvas

omit [Scalar α] in
theorem here_restyle (c : Canvas α) (v : Overridden α) : (c.restyle v).here
    = (c.palette, { c.innermost with context := c.innermost.context.restyle v }) := by
  rw [restyle, change_eq_put, here_put]

/-! ## Starred commands -/

section Commands

variable (o : Options α) {command : ShapeCommand} {a : Arguments}

/-- A shape command draws its figures in the innermost scope. -/
theorem step_shape (command : ShapeCommand) (a : Arguments) (c : Canvas α) :
    c.step o (.command (.shape command a))
      = c.change fun s => s.emitAll o (c.innermost.figures o c.palette (.shape command a)) := by
  rw [step_command, change_eq_put]
  rfl

theorem isStarred_of_mem_figures (h : command.isFilledByStar a = true) (p : Palette α)
    (s : Scope α) : ∀ f ∈ s.figures o p (.shape command a), f.paint.IsStarred := by
  show ∀ f ∈ (command.figures? s.context p a).getD [], _
  cases hfs : command.figures? s.context p a with
  | none => simp
  | some fs => exact command.isStarred_of_mem_figures? h hfs

theorem figures_restyle (h : command.isFilledByStar a = true) (c : Canvas α) (v : Overridden α) :
    (c.restyle v).innermost.figures o (c.restyle v).palette (.shape command a)
      = c.innermost.figures o c.palette (.shape command a) := by
  obtain ⟨hpalette, hinnermost⟩ := Prod.mk.inj (c.here_restyle v)
  rw [hpalette, hinnermost, Scope.figures, Scope.figures, command.figures?_restyle h]

end Commands

/-! ## Starred custom paths -/

section CustomPaths

variable (o : Options α) (ps : List Param) (body : List Item)

/-- The end of a custom path draws its path. -/
theorem step_exit_custom (c : Canvas α) :
    c.step o (.exit .custom) = (c.change fun s =>
      { s.emitAll o (c.innermost.lastFigures .custom) with path := none }).close o := by
  show (c.change (Scope.flush o)).close o = _
  rw [change_eq_put, change_eq_put, Scope.flush_eq]

/-- The scope of a custom path when its end comes. -/
theorem innermost_run_custom (starred : Bool) (c : Canvas α) :
    (c.run o (.enter (.custom starred ps) :: Item.eventsOfAll body)).innermost
      = (Item.drawAllIn o body
          (c.palette, .begin c.palette c.innermost.context (.custom starred ps))).2 := by
  rw [run_cons, step_enter, run_eventsOfAll, innermost_put]
  rfl

theorem starred_run_custom (starred : Bool) (c : Canvas α) :
    (c.run o (.enter (.custom starred ps) :: Item.eventsOfAll body)).innermost.starred
      = starred := by
  rw [innermost_run_custom, Item.starred_drawAllIn]
  rfl

theorem restyles_run_custom (starred : Bool) (c : Canvas α) (v : Overridden α) :
    Scope.Restyles (c.run o (.enter (.custom starred ps) :: Item.eventsOfAll body)).innermost
      ((c.restyle v).run o (.enter (.custom starred ps) :: Item.eventsOfAll body)).innermost := by
  obtain ⟨hpalette, hinnermost⟩ := Prod.mk.inj (c.here_restyle v)
  rw [innermost_run_custom, innermost_run_custom, hpalette, hinnermost]
  exact (Item.restyles_drawAllIn o body (.begin v _)).2

end CustomPaths

/-! ## The star on all ways -/

/-- On every canvas, what a starred command with lines and an area draws is filled
with the colour of its lines, which are solid and inside the border, without shadow
and double border; and it is the same for any other values of these settings.  So it
is with the paths of a starred custom path, whatever its body. -/
theorem starred_figures_override_styles (o : Options α) :
    (∀ (command : ShapeCommand) (a : Arguments), command.isFilledByStar a = true →
      ∀ c : Canvas α,
        let figures (c : Canvas α) := c.innermost.figures o c.palette (.shape command a)
        c.step o (.command (.shape command a)) = c.change (fun s => s.emitAll o (figures c)) ∧
          (∀ f ∈ figures c, f.paint.IsStarred) ∧ ∀ v, figures (c.restyle v) = figures c) ∧
      ∀ (ps : List Param) (body : List Item) (c : Canvas α),
        let inside (c : Canvas α) := c.run o (.enter (.custom true ps) :: Item.eventsOfAll body)
        let figures (c : Canvas α) := (inside c).innermost.lastFigures .custom
        (inside c).step o (.exit .custom)
            = ((inside c).change fun s => { s.emitAll o (figures c) with path := none }).close o ∧
          (∀ f ∈ figures c, f.paint.IsStarred) ∧ ∀ v, figures (c.restyle v) = figures c := by
  constructor
  · intro command a h c figures
    exact ⟨step_shape o command a c, isStarred_of_mem_figures o h c.palette c.innermost,
      figures_restyle o h c⟩
  · intro ps body c inside figures
    have hstarred : (inside c).innermost.starred = true := starred_run_custom o ps body true c
    exact ⟨step_exit_custom o (inside c), Scope.isStarred_of_mem_lastFigures hstarred,
      fun v => (restyles_run_custom o ps body true c v).lastFigures hstarred⟩

/-- A starred frame, in a scope that asks for dashed lines, a gradient and more. -/
theorem starred_figures_override_styles_frame :
    let c : Canvas Float := .blank .standard .predefined
    let v : Overridden Float := ⟨.dashed, .out, .gradient, .white, true, true⟩
    let corner : Coord := .cartesian ⟨.decimal false 2 0, none⟩ ⟨.decimal false 1 0, none⟩
    let a : Arguments := ⟨true, [⟨"linecolor", "blue"⟩, ⟨"doubleline", "true"⟩], none, [corner], []⟩
    let figures (c : Canvas Float) := c.innermost.figures .standard c.palette (.shape .frame a)
    ShapeCommand.frame.isFilledByStar a = true ∧ (figures c).length = 1 ∧
      (∀ f ∈ figures c, f.paint.IsStarred) ∧ figures (c.restyle v) = figures c := by
  intro c v corner a figures
  have hfilled : ShapeCommand.frame.isFilledByStar a = true := rfl
  have hone : (figures c).length = 1 := by decide +kernel
  obtain ⟨-, hstarred, hsame⟩ := (starred_figures_override_styles .standard).1 .frame a hfilled c
  exact ⟨hfilled, hone, hstarred, hsame v⟩

end Canvas

end PictureTree
