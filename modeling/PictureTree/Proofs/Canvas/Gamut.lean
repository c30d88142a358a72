/-
# `Proofs.Canvas.Gamut` — where colours go

A colour comes from the palette, from the values of a model, or from the styles
that a document starts with, and all of these are in gamut.  From there it is
handed on: by a setting to the context of a scope, by a context to the scopes
inside and to the figures drawn, by a scope to the text that it collects, and by
a starred figure from its lines to its area.

Nobody on this way makes a colour, so the invariant is the same everywhere:
`InGamut` of a setting, a context, a figure, a scope and a canvas says that all
colours in it are in gamut.  `Canvas.InGamut.step` is the step, and
`colors_stay_in_gamut` the run of any sources, one after the other.
-/
import PictureTree.Proofs.Canvas.Closing
import PictureTree.Proofs.Canvas.Definitions
import PictureTree.Proofs.Canvas.Finiteness
import PictureTree.Proofs.Color.Gamut
import PictureTree.Proofs.Style.Reading

namespace PictureTree

variable {α : Type} [Scalar α]

/-! ## Styles -/

/-- All colours of a filling are in gamut. -/
structure Filling.InGamut (f : Filling α) : Prop where
  color : f.color.InGamut
  start : f.gradient.start.InGamut
  stop : f.gradient.stop.InGamut
  hatching : f.hatching.color.InGamut

/-- All colours of a grid are in gamut. -/
structure GridStyle.InGamut (g : GridStyle α) : Prop where
  color : g.color.InGamut
  labelColor : g.labelColor.InGamut
  subgridColor : g.subgridColor.InGamut

/-- All colours of a context are in gamut. -/
structure Context.InGamut (c : Context α) : Prop where
  stroke : c.stroke.color.InGamut
  filling : c.filling.InGamut
  double : c.double.color.InGamut
  shadow : c.shadow.color.InGamut
  grid : c.grid.InGamut
  chosen : ∀ k ∈ c.chosenColor, k.InGamut

/-- The colour of a setting, if it has one, is in gamut. -/
def Setting.InGamut : Setting α → Prop
  | .stroke (.color c) | .filling (.color c) | .filling (.gradStart c) | .filling (.gradStop c)
  | .filling (.hatchColor c) | .double (.color c) | .shadow (.color c) | .grid (.color c)
  | .grid (.labelColor c) | .grid (.subgridColor c) => c.InGamut
  | _ => True

/-! ## Changes of styles -/

theorem Stroke.inGamut_put {s : Stroke α} (h : s.color.InGamut) {t : Stroke.Setting α}
    (ht : (Setting.stroke t).InGamut) : (s.put t).color.InGamut := by
  cases t with
  | color c => exact ht
  | opacity x =>
      show (ite _ _ _ : Stroke α).color.InGamut
      split <;> exact h
  | thickness | style | dash | dotSep | border => exact h

theorem Filling.InGamut.put {f : Filling α} (h : f.InGamut) {t : Filling.Setting α}
    (ht : (Setting.filling t).InGamut) : (f.put t).InGamut := by
  cases t with
  | color c => exact { h with color := ht }
  | gradStart c => exact { h with start := ht }
  | gradStop c => exact { h with stop := ht }
  | hatchColor c => exact { h with hatching := ht }
  | opacity x =>
      show (ite _ _ _ : Filling α).InGamut
      split
      · exact ⟨h.color, h.start, h.stop, h.hatching⟩
      · exact h
  | style | gradAngle | gradMidPoint | hatchAngle | hatchSep | hatchWidth =>
      exact ⟨h.color, h.start, h.stop, h.hatching⟩

theorem GridStyle.InGamut.put {g : GridStyle α} (h : g.InGamut) {t : GridStyle.Setting α}
    (ht : (Setting.grid t).InGamut) : (g.put t).InGamut := by
  cases t with
  | color c => exact { h with color := ht }
  | labelColor c => exact { h with labelColor := ht }
  | subgridColor c => exact { h with subgridColor := ht }
  | width | dots | labelSize | subgridDiv | subgridWidth | subgridDots =>
      exact ⟨h.color, h.labelColor, h.subgridColor⟩

theorem DoubleLine.inGamut_put {l : DoubleLine α} (h : l.color.InGamut) {t : DoubleLine.Setting α}
    (ht : (Setting.double t).InGamut) : (l.put t).color.InGamut := by
  cases t with
  | color c => exact ht
  | enabled | sep => exact h

theorem Shadow.inGamut_put {s : Shadow α} (h : s.color.InGamut) {t : Shadow.Setting α}
    (ht : (Setting.shadow t).InGamut) : (s.put t).color.InGamut := by
  cases t with
  | color c => exact ht
  | enabled | angle | size => exact h

/-- A setting changes a context by its own colour only. -/
theorem Context.InGamut.put {c : Context α} (h : c.InGamut) {s : Setting α} (hs : s.InGamut) :
    (c.put s).InGamut := by
  cases s with
  | stroke t => exact { h with stroke := Stroke.inGamut_put h.stroke hs }
  | filling t => exact { h with filling := h.filling.put hs }
  | double t => exact { h with double := DoubleLine.inGamut_put h.double hs }
  | shadow t => exact { h with shadow := Shadow.inGamut_put h.shadow hs }
  | grid t => exact { h with grid := h.grid.put hs }
  | scale | frameArc | arrows | dots | showPoints | axes | plotting | shapeAngle =>
      exact ⟨h.stroke, h.filling, h.double, h.shadow, h.grid, h.chosen⟩

/-! ## Reading settings -/

namespace Setting

variable {α : Type} [ExactScalar α] {r : Reading (Extended α)}

section Families

-- in each family a colour is read by `Reading.color`, and what is no colour has none
variable (hcolor : ∀ p c, r.color p = .ok c → c.InGamut) (p : Param)
include hcolor

theorem yields_stroke :
    Yields (fun t => (Setting.stroke t).InGamut) (Stroke.Setting.read? r p) := by
  unfold Stroke.Setting.read?
  split <;> first
    | exact yields_none
    | exact yields_map (hcolor p)
    | exact yields_map fun _ _ => trivial

theorem yields_filling :
    Yields (fun t => (Setting.filling t).InGamut) (Filling.Setting.read? r p) := by
  unfold Filling.Setting.read?
  split <;> first
    | exact yields_none
    | exact yields_map (hcolor p)
    | exact yields_map fun _ _ => trivial

theorem yields_double :
    Yields (fun t => (Setting.double t).InGamut) (DoubleLine.Setting.read? r p) := by
  unfold DoubleLine.Setting.read?
  split <;> first
    | exact yields_none
    | exact yields_map (hcolor p)
    | exact yields_map fun _ _ => trivial

theorem yields_shadow :
    Yields (fun t => (Setting.shadow t).InGamut) (Shadow.Setting.read? r p) := by
  unfold Shadow.Setting.read?
  split <;> first
    | exact yields_none
    | exact yields_map (hcolor p)
    | exact yields_map fun _ _ => trivial

theorem yields_grid :
    Yields (fun t => (Setting.grid t).InGamut) (GridStyle.Setting.read? r p) := by
  unfold GridStyle.Setting.read?
  split <;> first
    | exact yields_none
    | exact yields_map (hcolor p)
    | exact yields_map fun _ _ => trivial

end Families

theorem yields_alone (p : Param) :
    Yields (fun s : Setting (Extended α) => s.InGamut) (readAlone? p) := by
  unfold readAlone?
  split <;> first | exact yields_none | exact yields_map fun _ _ => trivial

/-- With a palette in gamut, every setting that is read is in gamut. -/
theorem inGamut_of_read (h : r.palette.InGamut) {p : Param} {s : Setting (Extended α)}
    (hs : read r p = .ok s) : s.InGamut := by
  have hcolor : ∀ p c, r.color p = .ok c → c.InGamut := fun p c hc => h.resolve hc
  refine of_read hs ?scale (yields_stroke hcolor p) (yields_filling hcolor p)
    (yields_double hcolor p) (yields_shadow hcolor p) ?arrows ?dots (yields_grid hcolor p)
    ?axes ?plotting (yields_alone p)
  -- the settings of the other families have no colours
  case scale | arrows | dots | axes | plotting => exact fun _ _ => trivial

end Setting

namespace Context.InGamut

section Styles

variable {α : Type} [Scalar α] {c : Context α}

theorem child (h : c.InGamut) : c.child.InGamut :=
  ⟨h.stroke, h.filling, h.double, h.shadow, h.grid, h.chosen⟩

theorem write (h : c.InGamut) (word : String) : (c.write word).InGamut :=
  ⟨h.stroke, h.filling, h.double, h.shadow, h.grid, h.chosen⟩

end Styles

variable {α : Type} [ExactScalar α] {c : Context (Extended α)} {palette : Palette (Extended α)}

theorem setAll (h : c.InGamut) (hp : palette.InGamut) (ps : List Param) :
    (c.setAll palette ps).InGamut :=
  setAll_keeps (fun _ _ _ hc hread => hc.put (Setting.inGamut_of_read hp hread)) h ps

/-- The styles of a document are in gamut. -/
theorem initial (ppc : Extended α) : (Context.initial ppc).InGamut where
  stroke := Color.inGamut_black
  filling :=
    { color := Color.inGamut_white
      start := Color.inGamut_rgb Extended.inUnit_zero
        (Extended.inUnit_fraction (show 1 ≤ 10 ^ 1 by decide))
        (Extended.inUnit_fraction (show 95 ≤ 10 ^ 2 by decide))
      stop := Color.inGamut_rgb Extended.inUnit_zero Extended.inUnit_one
        (Extended.inUnit_fraction (show 7 ≤ 10 ^ 1 by decide))
      hatching := Color.inGamut_black }
  double := Color.inGamut_white
  shadow := Color.inGamut_gray (Extended.inUnit_fraction (show 25 ≤ 10 ^ 2 by decide))
  grid :=
    { color := Color.inGamut_black
      labelColor := Color.inGamut_black
      subgridColor := Color.inGamut_gray (Extended.inUnit_fraction (show 5 ≤ 10 ^ 1 by decide)) }
  chosen := nofun

end Context.InGamut

/-! ## Figures -/

section Figures

variable {α : Type} [Scalar α]

/-- All colours of the styles of a figure are in gamut. -/
structure Paint.InGamut (p : Paint α) : Prop where
  stroke : ∀ s ∈ p.stroke, s.color.InGamut
  filling : ∀ f ∈ p.filling, f.InGamut
  shadow : ∀ s ∈ p.shadow, s.color.InGamut
  doubleBorder : ∀ d ∈ p.doubleBorder, d.color.InGamut

/-- All colours of an outline are in gamut. -/
def Outline.InGamut : Outline α → Prop
  | .dot _ _ _ color fill => color.InGamut ∧ fill.InGamut
  | .grid _ style => style.InGamut
  | .text _ _ color => color.InGamut
  | _ => True

/-- All colours of a figure are in gamut. -/
structure Figure.InGamut (f : Figure α) : Prop where
  outline : f.outline.InGamut
  paint : f.paint.InGamut

theorem Outline.inGamut_translate {o : Outline α} (h : o.InGamut) (dx dy : α) :
    (o.translate dx dy).InGamut := by
  cases o <;> exact h

/-- Outlines of most kinds have no colour of their own. -/
theorem Outline.inGamut_of_kind {o : Outline α} (hdot : o.kind ≠ .dot) (hgrid : o.kind ≠ .grid)
    (htext : o.kind ≠ .text) : o.InGamut := by
  cases o with
  | dot => exact absurd rfl hdot
  | grid => exact absurd rfl hgrid
  | text => exact absurd rfl htext
  | _ => trivial

namespace Paint

theorem forall_mem_ite {β : Type} {P : β → Prop} {b : Bool} {x : β} (h : P x) :
    ∀ y ∈ if b then some x else none, P y := by
  intro y hy
  split at hy
  · obtain rfl := Option.some.inj hy
    exact h
  · cases hy

/-- Texts and pictures have no styles. -/
theorem inGamut_plain {k : FigureKind} (hk : k = .text ∨ k = .picture) :
    (plain k : Paint α).InGamut := by
  have hstroke : k.hasStroke = false := by rcases hk with rfl | rfl <;> rfl
  have hfilling : k.hasFilling = false := by rcases hk with rfl | rfl <;> rfl
  have hdouble : k.hasDoubleBorder = false := by rcases hk with rfl | rfl <;> rfl
  constructor <;> simp [plain, ofKind, hstroke, hfilling, hdouble]

theorem inGamut_ofContext (k : FigureKind) {c : Context α} (h : c.InGamut) :
    (ofContext k c).InGamut :=
  ⟨forall_mem_ite h.stroke, forall_mem_ite h.filling, forall_mem_ite h.shadow,
    forall_mem_ite h.double⟩

/-- A starred figure has the colour of its lines for its area as well. -/
theorem InGamut.starred {p : Paint α} (h : p.InGamut) : p.starred.InGamut where
  stroke := by
    intro s hs
    obtain ⟨t, ht, rfl⟩ := Option.mem_map.mp hs
    exact h.stroke t ht
  filling := by
    intro f hf
    obtain ⟨g, hg, rfl⟩ := Option.mem_map.mp hf
    have hfilling := h.filling g hg
    refine ⟨?_, hfilling.start, hfilling.stop, hfilling.hatching⟩
    cases hs : p.stroke with
    | none => exact hfilling.color
    | some s => exact h.stroke s hs
  shadow := by
    intro s hs
    obtain ⟨t, ht, rfl⟩ := Option.mem_map.mp hs
    exact h.shadow t ht
  doubleBorder := by
    intro d hd
    obtain ⟨e, he, rfl⟩ := Option.mem_map.mp hd
    exact h.doubleBorder e he

end Paint

namespace Figure.InGamut

variable {f : Figure α}

theorem translate (h : f.InGamut) (dx dy : α) : (f.translate dx dy).InGamut :=
  ⟨Outline.inGamut_translate h.outline dx dy, h.paint⟩

theorem rotate (h : f.InGamut) (center : Point α) (angle : α) :
    (f.rotate center angle).InGamut :=
  ⟨Outline.inGamut_translate h.outline _ _, h.paint⟩

theorem turnBy (h : f.InGamut) (c : Context α) : (f.turnBy c).InGamut := by
  unfold Figure.turnBy
  split
  · exact h
  · exact h.rotate _ _

theorem reversed (h : f.InGamut) : f.reversed.InGamut := by
  unfold Figure.reversed
  split
  · exact ⟨trivial, h.paint.stroke, h.paint.filling, h.paint.shadow, h.paint.doubleBorder⟩
  · exact h

theorem asChord (h : f.InGamut) : f.asChord.InGamut := by
  unfold Figure.asChord
  split
  · exact ⟨trivial, h.paint⟩
  · exact h

theorem move (h : f.InGamut) (e : Exit α) : (e.move f).InGamut := by
  cases e with
  | keep => exact h
  | place position angle => exact (h.rotate .origin angle).translate position.x position.y
  | turn center angle => exact h.rotate center angle

/-- A figure has the colours of its outline and those of its context. -/
theorem dress (h : f.outline.InGamut) {c : Context α} (hc : c.InGamut) (starred : Bool) :
    (f.dress c starred).InGamut := by
  refine ⟨h, ?_⟩
  cases starred with
  | false => exact Paint.inGamut_ofContext _ hc
  | true => exact (Paint.inGamut_ofContext _ hc).starred

end Figure.InGamut

/-- The outlines of a command have the colours of its context. -/
theorem ShapeCommand.inGamut_outlines? (command : ShapeCommand) {c : Context α} (hc : c.InGamut)
    {a : Arguments} {ds : Drawn α} (hds : command.outlines? c a = some ds) :
    ∀ d ∈ ds, d.1.InGamut := by
  intro d hd
  have hkind : d.1.kind = command.kind := command.draws_outlines? c a ds hds d hd
  cases command with
  | dot =>
      obtain ⟨p, -, hmark⟩ := Option.bind_eq_some_iff.mp hds
      obtain rfl := Option.some.inj hmark
      obtain rfl := List.mem_singleton.mp hd
      exact ⟨hc.stroke, hc.filling.color⟩
  | dots =>
      obtain ⟨ps, -, hmarks⟩ := Option.bind_eq_some_iff.mp hds
      obtain rfl := Option.some.inj hmarks
      obtain ⟨p, -, rfl⟩ := List.mem_map.mp hd
      exact ⟨hc.stroke, hc.filling.color⟩
  | grid =>
      obtain ⟨l, -, hgrid⟩ := Option.bind_eq_some_iff.mp hds
      obtain rfl := Option.some.inj hgrid
      obtain rfl := List.mem_singleton.mp hd
      exact hc.grid
  | _ => apply Outline.inGamut_of_kind <;> (rw [hkind]; nofun)

theorem ShapeCommand.inGamut_finish (command : ShapeCommand) {c : Context α} (hc : c.InGamut)
    (a : Arguments) {d : Outline α × α} (hd : d.1.InGamut) : (command.finish c a d).InGamut := by
  have hdress : ((Figure.ofOutline d.1 d.2).dress c (command.isStarred a)).InGamut :=
    .dress hd hc _
  rw [finish_eq]
  refine Figure.InGamut.turnBy ?_ c
  unfold upright
  split
  · exact hdress.reversed
  · exact hdress

theorem Scope.inGamut_picture? {o : Options α} {c : Context α} {params : List Param}
    {path : String} {f : Figure α} (h : picture? o c params path = some f) : f.InGamut := by
  simp only [picture?, Inclusion.figure?, bind, Option.bind_eq_some_iff, pure,
    Option.some.injEq] at h
  obtain ⟨size, -, width, -, height, -, rfl⟩ := h
  exact ⟨trivial, Paint.inGamut_plain (.inr rfl)⟩

end Figures

/-! ## Scopes -/

section Scopes

variable {α : Type} [Scalar α]

/-- All colours of a scope are in gamut: those of its context and those of the
figures drawn in it. -/
structure Scope.InGamut (s : Scope α) : Prop where
  context : s.context.InGamut
  drawn : Grouping.AllLeaves Figure.InGamut s.drawn

namespace Scope.InGamut

variable {s : Scope α}

theorem emitAll (h : s.InGamut) (o : Options α) {fs : List (Figure α)}
    (hfs : ∀ f ∈ fs, f.InGamut) : (s.emitAll o fs).InGamut := by
  have hcontext : (s.emitAll o fs).context = s.context := by rw [emitAll_eq]
  refine ⟨hcontext ▸ h.context, ?_⟩
  rw [drawn_emitAll]
  exact allLeaves_foldl_draw (fun f hf => hf.asChord) h.drawn hfs

theorem write (h : s.InGamut) (word : String) : (s.write word).InGamut := by
  unfold Scope.write
  split
  · exact h
  · exact ⟨h.context.write word, h.drawn⟩

theorem choose (h : s.InGamut) {c : Color α} (hc : c.InGamut) : (s.choose c).InGamut := by
  refine ⟨{ h.context with chosen := fun k hk => ?_ }, h.drawn⟩
  obtain rfl := Option.some.inj hk
  exact hc

/-- The text of a scope is in gamut with its context, and so are all shapes that
the scope ends with. -/
theorem shapes (h : s.InGamut) : Grouping.AllLeaves Figure.InGamut s.shapes := by
  refine Grouping.allLeaves_append.mpr
    ⟨Grouping.allLeaves_reverse.mpr h.drawn, Grouping.allLeaves_map_one.mpr fun f hf => ?_⟩
  rw [Option.mem_toList, textFigure?] at hf
  split at hf
  · cases hf
  · obtain rfl := Option.some.inj hf
    have htext : s.context.textColor.InGamut := by
      unfold Context.textColor
      cases hchosen : s.context.chosenColor with
      | none => exact h.context.stroke
      | some c => exact h.context.chosen c hchosen
    exact ⟨htext, Paint.inGamut_plain (.inl rfl)⟩

theorem ended (h : s.InGamut) (o : Options α) (kind : ScopeKind) : (s.ended o kind).InGamut := by
  have hruns : ∀ f ∈ s.lastFigures kind, f.InGamut := by
    intro f hf
    cases kind with
    | picture | block | place | turn => cases hf
    | custom =>
        obtain ⟨run, -, rfl⟩ := List.mem_map.mp hf
        refine (Figure.InGamut.dress ?_ h.context s.starred).turnBy s.context
        trivial
  refine ⟨?_, ?_⟩
  · rw [ended_eq]
    exact h.context
  · rw [drawn_ended]
    exact allLeaves_foldl_draw (fun f hf => hf.asChord) h.drawn hruns

/-- The group of one scope in another. -/
theorem emit_leave (h : s.InGamut) {inner : Scope α} (hinner : inner.InGamut) (o : Options α) :
    (s.emit o inner.leave).InGamut := by
  have hmembers : Grouping.AllLeaves Figure.InGamut inner.members := by
    have hleaves : Grouping.leavesOfAll inner.members
        = (Grouping.leavesOfAll inner.shapes).map inner.exit.move := by
      rw [← inner.leaves_leave, leave_eq_group]
      rfl
    rw [Grouping.AllLeaves, hleaves]
    exact List.forall_mem_map.mpr fun f hf => (hinner.shapes f hf).move inner.exit
  rw [Scope.emit_leave]
  exact ⟨h.context, Grouping.allLeaves_cons_group.mpr ⟨hmembers, h.drawn⟩⟩

end Scope.InGamut

end Scopes

namespace Scope.InGamut

variable {α : Type} [ExactScalar α] {s : Scope (Extended α)} {palette : Palette (Extended α)}

theorem chooseSpec (h : s.InGamut) (hp : palette.InGamut) (spec : ColorSpec) :
    (s.chooseSpec palette spec).InGamut := by
  unfold Scope.chooseSpec
  split
  · next c hc =>
      refine h.choose ?_
      unfold color? at hc
      split at hc
      · exact Color.inGamut_of_ofModel? (ok_of_toOption hc)
      · exact hp.resolve (ok_of_toOption hc)
  · exact h

/-- A command draws figures in gamut. -/
theorem figures (h : s.InGamut) (hp : palette.InGamut) (o : Options (Extended α)) (k : Command) :
    ∀ f ∈ s.figures o palette k, f.InGamut := by
  intro f hf
  cases k with
  | shape command a =>
      have hcontext : (ShapeCommand.context s.context palette a).InGamut := by
        have hset := h.context.setAll hp a.params
        exact ⟨hset.stroke, hset.filling, hset.double, hset.shadow, hset.grid, hset.chosen⟩
      cases hfs : command.figures? s.context palette a with
      | none => simp [Scope.figures, hfs] at hf
      | some fs =>
          obtain ⟨ds, hds, rfl⟩ := Option.map_eq_some_iff.mp hfs
          obtain ⟨d, hd, rfl⟩ : ∃ d ∈ ds, _ = f := by simpa [Scope.figures, hfs] using hf
          exact command.inGamut_finish hcontext a (command.inGamut_outlines? hcontext hds d hd)
  | includePicture params path =>
      exact inGamut_picture? (Option.mem_toList.mp hf)
  | set | framedBox | defineColor | newColor | useColor | textColor | path | text => cases hf

theorem obey (h : s.InGamut) (hp : palette.InGamut) (o : Options (Extended α)) (k : Command) :
    (s.obey o palette k).InGamut := by
  cases k with
  | set params => exact ⟨h.context.setAll hp params, h.drawn⟩
  | shape command a => exact h.emitAll o (h.figures hp o (.shape command a))
  | includePicture params path => exact h.emitAll o (h.figures hp o (.includePicture params path))
  | defineColor | newColor => exact h
  | useColor spec => exact h.chooseSpec hp spec
  | textColor spec text => exact (h.chooseSpec hp spec).write text
  | framedBox name text => exact h.write text
  | text word => exact h.write word
  | path k => exact ⟨h.context, h.drawn⟩

/-- A scope begins with the colours of the context around it and of its own
parameters. -/
theorem begin (hp : palette.InGamut) {outer : Context (Extended α)} (h : outer.InGamut)
    (head : ScopeHead) : (Scope.begin palette outer head).InGamut := by
  have hset (ps : List Param) := h.child.setAll hp ps
  have hcontext : (Scope.begin palette outer head).context.InGamut := by
    cases head with
    | picture starred ps corners =>
        have hps := hset ps
        exact ⟨hps.stroke, hps.filling, hps.double, hps.shadow, hps.grid, hps.chosen⟩
    | block => exact h.child
    | custom starred ps => exact hset ps
    | place starred refPoint angle position =>
        exact ⟨h.stroke, h.filling, h.double, h.shadow, h.grid, h.chosen⟩
    | turn ps center angle => exact hset ps
  refine ⟨hcontext, ?_⟩
  rw [drawn_begin]
  exact Grouping.allLeaves_nil

end Scope.InGamut

/-! ## Canvases -/

/-- All colours of a canvas are in gamut. -/
structure Canvas.InGamut {α : Type} [Scalar α] (c : Canvas α) : Prop where
  palette : c.palette.InGamut
  scopes : ∀ s ∈ c.scopes, s.InGamut

namespace Canvas.InGamut

variable {α : Type} [ExactScalar α] {c : Canvas (Extended α)}

theorem innermost (h : c.InGamut) : c.innermost.InGamut := by
  refine h.scopes _ ?_
  rw [scopes_eq]
  exact List.mem_cons_self

theorem put (h : c.InGamut) {p : Palette (Extended α)} (hp : p.InGamut)
    {s : Scope (Extended α)} (hs : s.InGamut) : (c.put (p, s)).InGamut := by
  refine ⟨hp, ?_⟩
  rw [scopes_put]
  exact List.forall_mem_cons.mpr ⟨hs, fun t ht => h.scopes t (List.mem_of_mem_tail ht)⟩

theorem learn {p : Palette (Extended α)} (h : p.InGamut) (k : Command) : (p.learn k).InGamut := by
  cases k with
  | defineColor name model values => exact h.defineModel name model values
  | newColor kind name values => exact h.defineModel name kind.model values
  | _ => exact h

/-- The scope that ends hands its group to the scope around it. -/
theorem receive (h : c.InGamut) (o : Options (Extended α)) {s : Scope (Extended α)}
    (hs : s.InGamut) : (c.receive o s).InGamut :=
  h.put h.palette (h.innermost.emit_leave hs o)

theorem step (h : c.InGamut) (o : Options (Extended α)) (e : Event) : (c.step o e).InGamut := by
  cases e with
  | enter head =>
      refine ⟨h.palette, List.forall_mem_cons.mpr ⟨?_, h.scopes⟩⟩
      exact .begin h.palette h.innermost.context head
  | command k =>
      rw [step_command]
      exact h.put (learn h.palette k) (h.innermost.obey h.palette o k)
  | exit kind =>
      rcases c with ⟨p, root, - | ⟨s, outer⟩⟩
      · cases kind with
        | picture | block | place | turn => exact h
        | custom =>
            refine ⟨h.palette, List.forall_mem_singleton.mpr ?_⟩
            exact h.innermost.ended o .custom
      · obtain ⟨hs, houter⟩ := List.forall_mem_cons.mp h.scopes
        have hinner : (Canvas.mk p root outer).InGamut := ⟨h.palette, houter⟩
        have hreceive := hinner.receive o (hs.ended o kind)
        rw [← exit_push] at hreceive
        exact hreceive

theorem run (h : c.InGamut) (o : Options (Extended α)) (events : List Event) :
    (c.run o events).InGamut := by
  induction events generalizing c with
  | nil => exact h
  | cons e events ih => exact ih (h.step o e)

theorem close (h : c.InGamut) (o : Options (Extended α)) : (c.close o).InGamut := by
  rcases c with ⟨p, root, - | ⟨s, outer⟩⟩
  · exact h
  · obtain ⟨hs, houter⟩ := List.forall_mem_cons.mp h.scopes
    have hinner : (Canvas.mk p root outer).InGamut := ⟨h.palette, houter⟩
    have hreceive := hinner.receive o hs
    rw [← close_push] at hreceive
    exact hreceive

theorem closeTimes (h : c.InGamut) (o : Options (Extended α)) (n : Nat) :
    (c.closeTimes o n).InGamut := by
  induction n generalizing c with
  | zero => exact h
  | succ n ih => exact ih (h.close o)

/-- What a canvas is finished to is in gamut, with scopes still open as well. -/
theorem finish (h : c.InGamut) (o : Options (Extended α)) :
    Grouping.AllLeaves Figure.InGamut (c.finish o) := by
  have hroot : (c.closeAll o).root.InGamut := by
    refine (h.closeTimes o c.depth).scopes _ ?_
    exact List.mem_append_right _ List.mem_cons_self
  exact Grouping.allLeaves_flatten.mpr hroot.shapes

theorem blank (o : Options (Extended α)) {p : Palette (Extended α)} (h : p.InGamut) :
    (Canvas.blank o p).InGamut := by
  refine ⟨h, List.forall_mem_singleton.mpr ⟨?_, Grouping.allLeaves_nil⟩⟩
  exact Context.InGamut.initial o.ppc

end Canvas.InGamut

/-! ## Sources one after another -/

section Sources

variable {α : Type} [ExactScalar α]

theorem Palette.InGamut.importSource? {p : Palette (Extended α)} (h : p.InGamut)
    {o : Options (Extended α)} {source : String} {result : List (Shape (Extended α)) × Palette _}
    (hresult : importSource? o p source = some result) :
    Grouping.AllLeaves Figure.InGamut result.1 ∧ result.2.InGamut := by
  obtain ⟨items, -, rfl⟩ := Option.map_eq_some_iff.mp hresult
  have hcanvas := (Canvas.InGamut.blank o h).run o (Item.eventsOfAll items)
  exact ⟨hcanvas.finish o, hcanvas.palette⟩

theorem Palette.InGamut.afterSources {p : Palette (Extended α)} (h : p.InGamut)
    (o : Options (Extended α)) (sources : List String) : (p.afterSources o sources).InGamut := by
  induction sources generalizing p with
  | nil => exact h
  | cons source sources ih =>
      refine ih ?_
      show (((PictureTree.importSource? o p source).map Prod.snd).getD p).InGamut
      cases himport : PictureTree.importSource? o p source with
      | none => exact h
      | some result => exact (h.importSource? himport).2

/-- Colours are in gamut: those that a name stands for, if those of the palette
are, and those that the values of a model describe.  So with the predefined
palette to begin with and any sources, one after the other, the palette is in
gamut, all scopes and all figures after any part of a further source, and all
figures that it is imported as. -/
theorem colors_stay_in_gamut :
    (∀ p : Palette (Extended α), p.InGamut → ∀ name c, p.resolve name = .ok c → c.InGamut) ∧
      (∀ model values, ∀ c : Color (Extended α), Color.ofModel? model values = .ok c →
        c.InGamut) ∧
      ∀ (o : Options (Extended α)) (sources : List String),
        let palette := Palette.predefined.afterSources o sources
        palette.InGamut ∧ ∀ source items, Item.ofSource? source = some items →
          (∀ n, ((Canvas.blank o palette).run o ((Item.eventsOfAll items).take n)).InGamut) ∧
            ∀ result, importSource? o palette source = some result →
              Grouping.AllLeaves Figure.InGamut result.1 ∧ result.2.InGamut := by
  refine ⟨fun p hp name c hc => hp.resolve hc, fun model values c hc =>
    Color.inGamut_of_ofModel? hc, fun o sources => ?_⟩
  have hpalette := Palette.InGamut.afterSources (@Palette.inGamut_predefined α _) o sources
  refine ⟨hpalette, fun source items _ => ⟨fun n => ?_, fun result hresult => ?_⟩⟩
  · exact (Canvas.InGamut.blank o hpalette).run o _
  · exact hpalette.importSource? hresult

/-- Red, more than all of it in blue and then a share that is no number; a value of
a model; and a grey that one source defines and the next one uses. -/
theorem colors_stay_in_gamut_real :
    let palette := Palette.predefined.afterSources (.standard : Options (Extended ℝ))
      ["\\newgray\x7bsea\x7d\x7b1\x7d"]
    let dot : Item := .command (.shape .dot ⟨false, [⟨"linecolor", "sea!30"⟩], none, [], []⟩)
    (∃ c : Color (Extended ℝ), Palette.predefined.resolve "red!150!blue!nan" = .ok c ∧
        c.InGamut) ∧
      (∃ c : Color (Extended ℝ), Color.ofModel? "gray" "1" = .ok c ∧ c.InGamut) ∧
      Item.ofSource? "\\psdot[linecolor=sea!30]" = some [dot] ∧
      ∃ result, importSource? .standard palette "\\psdot[linecolor=sea!30]" = some result ∧
        Grouping.AllLeaves Figure.InGamut result.1 := by
  intro palette dot
  have hname : ∃ c : Color (Extended ℝ),
      Palette.predefined.resolve "red!150!blue!nan" = .ok c := ⟨_, rfl⟩
  have hmodel : ∃ c : Color (Extended ℝ), Color.ofModel? "gray" "1" = .ok c := by
    let one : Extended ℝ := Scalar.ofNat 1
    have hone : Scalar.inUnit one = true := Extended.inUnit_one
    have hgray : Color.Model.ofName? "gray" = some .gray := rfl
    have hnumbers : Color.ofNumbers? .gray "1" = some (Color.mk one one one one) := by
      show (Color.ofComponents? one one one one).toOption = _
      rw [Color.ofComponents?_eq hone hone hone hone]
      rfl
    exact ⟨_, by simp only [Color.ofModel?, hgray, hnumbers]; rfl⟩
  have hsource : Item.ofSource? "\\psdot[linecolor=sea!30]" = some [dot] := by cbv
  have himport : ∃ result,
      importSource? .standard palette "\\psdot[linecolor=sea!30]" = some result := by
    rw [importSource?, hsource]
    exact ⟨_, rfl⟩
  obtain ⟨c, hc⟩ := hname
  obtain ⟨d, hd⟩ := hmodel
  obtain ⟨result, hresult⟩ := himport
  exact ⟨⟨c, hc, colors_stay_in_gamut.1 _ Palette.inGamut_predefined _ c hc⟩,
    ⟨d, hd, colors_stay_in_gamut.2.1 _ _ d hd⟩, hsource, result, hresult,
    (((colors_stay_in_gamut.2.2 _ _).2 _ _ hsource).2 result hresult).1⟩

end Sources

end PictureTree
