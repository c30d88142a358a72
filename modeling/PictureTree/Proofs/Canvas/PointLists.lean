/-
# `Proofs.Canvas.PointLists` — the point lists of an import

What an import has for figures was drawn at some event of the document; afterwards an arc
may have become a chord, and scopes have moved it.  So what is to be known of all figures
comes down to three questions (`Canvas.allLeaves_finish_drawItems`):

    a chord     does it still hold?
    a motion    does it still hold?
    an event    does it hold of the figures that are drawn there?

For point lists the first two say nothing new, since no point is dropped.  The third is
answered by the commands, which have the coordinates that they are written with, by the runs
of paths, and for plots by the contexts, of which all can plot (`Canvas.canPlot_innermost`).
-/
import PictureTree.Proofs.Canvas.Places
import PictureTree.Proofs.Shape.PointLists

namespace PictureTree

variable {α : Type} [Scalar α]

/-! ## From where a figure is drawn to the import -/

/-- What is kept by motions is kept by the ends of all scopes around a figure. -/
theorem Placed.keeps_result {P : Figure α → Prop} (hmove : ∀ (e : Exit α) f, P f → P (e.move f))
    {p : Placed α} (h : P p.figure) : P p.result :=
  List.foldlRecOn p.exits (fun f e => e.move f) h fun f hf e _ => hmove e f hf

/-- What holds of every figure where it is drawn, and is kept by chords and motions, holds of
all figures of the import. -/
theorem Canvas.allLeaves_finish_drawItems {P : Figure α → Prop} (hchord : ∀ f, P f → P f.asChord)
    (hmove : ∀ (e : Exit α) f, P f → P (e.move f)) {o : Options α} {palette : Palette α}
    {items : List Item}
    (hdrawn : ∀ before after, Item.eventsOfAll items = before ++ after →
      ∀ f ∈ ((blank o palette).run o before).figuresAt o after.head?, P f) :
    Grouping.AllLeaves P ((drawItems o palette items).finish o) := by
  rw [Grouping.AllLeaves, leaves_finish_drawItems]
  refine List.forall_mem_map.mpr ?_
  intro p hp
  obtain ⟨before, after, hevents, ⟨f, hf, hfigure⟩, -⟩ := exists_origin o palette items p hp
  have hf : P f := hdrawn before after hevents f hf
  refine Placed.keeps_result hmove ?_
  rcases hfigure with hfigure | hfigure <;> rw [hfigure]
  · exact hf
  · exact hchord f hf

omit [Scalar α] in
theorem Figure.wellFormed_asChord {f : Figure α} (h : f.outline.WellFormed) :
    f.asChord.outline.WellFormed := by
  unfold asChord
  split
  · trivial
  · exact h

theorem Exit.wellFormed_move (e : Exit α) {f : Figure α} (h : f.outline.WellFormed) :
    (e.move f).outline.WellFormed := by
  cases e with
  | keep => exact h
  | place position angle =>
      exact Outline.wellFormed_translate (Figure.wellFormed_rotate h .origin angle) _ _
  | turn center angle => exact Figure.wellFormed_rotate h center angle

/-! ## The steps of plots -/

/-- A plot in the context has two steps at least. -/
def Context.CanPlot (c : Context α) : Prop := 2 ≤ c.plotting.points

namespace Context.CanPlot

variable {c : Context α}

/-- The number of steps that a parameter sets is raised to two. -/
theorem put (h : c.CanPlot) (s : Setting α) : (c.put s).CanPlot := by
  cases s with
  | plotting t =>
      cases t with
      | points n => exact Nat.le_max_right n 2
      | style | polar => exact h
  | scale | stroke | frameArc | filling | double | shadow | arrows | dots | showPoints | grid
    | axes | shapeAngle => exact h

theorem setAll (h : c.CanPlot) (palette : Palette α) (ps : List Param) :
    (c.setAll palette ps).CanPlot :=
  setAll_keeps (fun _ _ s hc _ => hc.put s) h ps

end Context.CanPlot

namespace Scope

variable {palette : Palette α} {s : Scope α}

theorem canPlot_begin {outer : Context α} (h : outer.CanPlot) (head : ScopeHead) :
    (begin palette outer head).context.CanPlot := by
  have hset := Context.CanPlot.setAll (show outer.child.CanPlot from h) palette
  cases head with
  | picture starred ps corners | custom starred ps | turn ps center angle => exact hset ps
  | block | place => exact h

theorem canPlot_obey (h : s.context.CanPlot) (o : Options α) (k : Command) :
    (s.obey o palette k).context.CanPlot := by
  have hword (t : Scope α) (ht : t.context.CanPlot) (word : String) :
      (t.write word).context.CanPlot := by
    unfold write
    split <;> exact ht
  have hcolor (spec : ColorSpec) : (s.chooseSpec palette spec).context.CanPlot := by
    unfold chooseSpec
    split <;> exact h
  cases k with
  | set ps => exact h.setAll palette ps
  | shape | includePicture =>
      simp only [obey, emitAll_eq]
      exact h
  | framedBox | text => exact hword s h _
  | defineColor | newColor | path => exact h
  | useColor spec => exact hcolor spec
  | textColor spec text => exact hword _ (hcolor spec) text

end Scope

/-! ## The contexts of open scopes -/

namespace Canvas

section Contexts

variable {P : Context α → Prop} {o : Options α} {c : Canvas α}

omit [Scalar α] in
theorem forall_contexts_innermost (h : ∀ s ∈ c.scopes, P s.context) : P c.innermost.context := by
  rw [scopes_eq] at h
  exact h c.innermost List.mem_cons_self

omit [Scalar α] in
theorem forall_contexts_put (h : ∀ s ∈ c.scopes, P s.context) {p : Palette α} {s : Scope α}
    (hs : P s.context) : ∀ t ∈ (c.put (p, s)).scopes, P t.context := by
  rw [scopes_put]
  exact List.forall_mem_cons.mpr ⟨hs, fun t ht => h t (List.mem_of_mem_tail ht)⟩

/-- The scope that ends leaves a group, and the contexts around it as they are. -/
theorem forall_contexts_exit (h : ∀ s ∈ c.scopes, P s.context) (kind : ScopeKind) :
    ∀ s ∈ (c.step o (.exit kind)).scopes, P s.context := by
  obtain ⟨p, root, - | ⟨s, outer⟩⟩ := c
  · cases kind with
    | picture | block | place | turn => exact h
    | custom =>
        refine List.forall_mem_singleton.mpr ?_
        show P (root.ended o .custom).context
        rw [Scope.context_ended]
        exact forall_contexts_innermost h
  · have houter : ∀ t ∈ (Canvas.mk p root outer).scopes, P t.context :=
      (List.forall_mem_cons.mp h).2
    have hstep : Canvas.step o ⟨p, root, s :: outer⟩ (.exit kind) = _ :=
      step_exit_push o ⟨p, root, outer⟩ p s kind
    rw [hstep]
    exact forall_contexts_put houter (forall_contexts_innermost houter)

/-- What is handed on to the scopes inside, and is not lost by a command, holds of all contexts
after any events, if it does before them. -/
theorem forall_contexts_run
    (hbegin : ∀ palette outer head, P outer → P (Scope.begin palette outer head).context)
    (hobey : ∀ palette s k, P s.context → P (Scope.obey o palette s k).context)
    (events : List Event) (h : ∀ s ∈ c.scopes, P s.context) :
    ∀ s ∈ (c.run o events).scopes, P s.context := by
  induction events generalizing c with
  | nil => exact h
  | cons e events ih =>
      have hinnermost : P c.innermost.context := forall_contexts_innermost h
      refine ih ?_
      cases e with
      | enter head => exact List.forall_mem_cons.mpr ⟨hbegin _ _ head hinnermost, h⟩
      | exit kind => exact forall_contexts_exit h kind
      | command k =>
          rw [step_command]
          exact forall_contexts_put h (hobey _ _ k hinnermost)

end Contexts

/-- Every plot in any scope has two steps at least. -/
theorem canPlot_innermost (o : Options α) (palette : Palette α) (events : List Event) :
    ((blank o palette).run o events).innermost.context.CanPlot := by
  have hblank : ∀ s ∈ (blank o palette).scopes, s.context.CanPlot :=
    List.forall_mem_singleton.mpr (show 2 ≤ 50 by decide)
  refine forall_contexts_run (P := Context.CanPlot) (fun _ _ head h => Scope.canPlot_begin h head)
    (fun _ _ k h => Scope.canPlot_obey h o k) events hblank _ ?_
  rw [scopes_eq]
  exact List.mem_cons_self

end Canvas

/-! ## Documents -/

namespace Scope

variable {o : Options α} {palette : Palette α} {s : Scope α} {f : Figure α}

/-- A command that has the coordinates that it is written with draws well formed figures. -/
theorem wellFormed_figures {k : Command} (hk : k.Supplied) (hs : s.context.CanPlot)
    (hf : f ∈ s.figures o palette k) : f.outline.WellFormed := by
  cases k with
  | shape command a =>
      have hc : (ShapeCommand.context s.context palette a).CanPlot := hs.setAll palette a.params
      cases hfs : command.figures? s.context palette a with
      | none => simp [figures, hfs] at hf
      | some fs =>
          obtain ⟨ds, hds, rfl⟩ := Option.map_eq_some_iff.mp hfs
          obtain ⟨d, hd, rfl⟩ : ∃ d ∈ ds, _ = f := by simpa [figures, hfs] using hf
          have hd : d.1.WellFormed := command.wellFormed_outlines? hc hk hds d hd
          exact command.wellFormed_finish hd
  | includePicture params path =>
      have hkind : f.kind = .picture := by
        obtain ⟨size, -, hsize⟩ := Option.bind_eq_some_iff.mp (Option.mem_toList.mp hf)
        exact Inclusion.kind_of_figure? hsize
      exact Outline.wellFormed_of_kind (congrArg FigureKind.hasPointList hkind)
  | set | framedBox | defineColor | newColor | useColor | textColor | path | text => cases hf

/-- The runs of a path are well formed. -/
theorem wellFormed_lastFigures {kind : ScopeKind} (hf : f ∈ s.lastFigures kind) :
    f.outline.WellFormed := by
  cases kind with
  | picture | block | place | turn => cases hf
  | custom =>
      obtain ⟨run, hrun, rfl⟩ := List.mem_map.mp hf
      refine Figure.wellFormed_turnBy ?_ s.context
      show 2 ≤ run.points.length
      cases hpath : s.path with
      | none => simp [undrawn, hpath] at hrun
      | some path =>
          rw [undrawn, hpath] at hrun
          exact path.two_le_length_runs run (by simpa using hrun)

theorem wellFormed_textFigure? (hf : f ∈ s.textFigure?.toList) : f.outline.WellFormed := by
  rw [Option.mem_toList, textFigure?] at hf
  split at hf
  · cases hf
  · obtain rfl := Option.some.inj hf
    trivial

end Scope

/-- Every source that parses is imported, and in the import, at any depth, every polyline has
two points at least and every polygon three, every merged run of a path and every curve has
two, every path with control points has a vertex and as many control points as vertices, and
every plot has two steps. -/
theorem importSource?_wellFormed (o : Options α) (palette : Palette α) {source : String}
    {items : List Item} (hitems : Item.ofSource? source = some items) :
    ∃ shapes after, importSource? o palette source = some (shapes, after) ∧
      ∀ f ∈ Grouping.leavesOfAll shapes, f.outline.WellFormed := by
  refine ⟨_, _, by rw [importSource?, hitems]; rfl, ?_⟩
  refine Canvas.allLeaves_finish_drawItems (P := fun f => f.outline.WellFormed)
    (fun f => Figure.wellFormed_asChord) (fun e f => e.wellFormed_move) ?_
  intro before after hevents f hf
  have hcontext := Canvas.canPlot_innermost o palette before
  cases after with
  | nil => exact Scope.wellFormed_textFigure? hf
  | cons e after =>
      cases e with
      | enter head => cases hf
      | exit kind =>
          rcases List.mem_append.mp hf with hf | hf
          · exact Scope.wellFormed_lastFigures hf
          · exact Scope.wellFormed_textFigure? hf
      | command k =>
          have hk : k.Supplied := Item.supplied_of_ofSource? hitems k (by simp [hevents])
          exact Scope.wellFormed_figures hk hcontext hf

/-- A line to a single point and a path of one segment, inside a turned scope. -/
theorem importSource?_wellFormed_turned :
    let source := "\\psrotate(0,0)\x7b90\x7d\x7b\\psline(1,2)\\psbezier(1,0)(1,1)(0,1)\x7d"
    let point (x y : Nat) : Coord :=
      .cartesian ⟨.decimal false x 0, none⟩ ⟨.decimal false y 0, none⟩
    let items : List Item :=
      [.scope (.turn [] (point 0 0) ⟨.decimal false 90 0, none⟩)
        [.command (.shape .line ⟨false, [], none, [point 1 2], []⟩),
          .command (.shape .bezier ⟨false, [], none, [point 1 0, point 1 1, point 0 1], []⟩)]]
    Item.ofSource? source = some items ∧
      ∃ shapes after, importSource? (.standard : Options Float) .predefined source
          = some (shapes, after) ∧
        ∀ f ∈ Grouping.leavesOfAll shapes, f.outline.WellFormed := by
  intro source point items
  have hitems : Item.ofSource? source = some items := by cbv
  exact ⟨hitems, importSource?_wellFormed .standard .predefined hitems⟩

end PictureTree
