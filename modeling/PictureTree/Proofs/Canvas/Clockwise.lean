/-
# `Proofs.Canvas.Clockwise` — arcs that are drawn clockwise

A clockwise arc is the arc between the same two angles in the other order, with its line
ends exchanged.  `Canvas.finish_clockwise` says so of whole imports.  A document has a
clockwise arc at some place (`Item.Hole`), and another document has the other arc there:
the two imports have the same groups, and the same figures but for one.

Behind the place everything goes the same way in both, for two reasons:

    beside      an item looks at the context, the path and the palette, and not at what is
                drawn, so the items behind the arc emit the same shapes in both documents
    closes      a line looks at the geometry of an arc and not at its ends, so it is taken
                in by both arcs or by none

An arc takes in nothing that is drawn before it, and a group neither takes in a line nor is
taken in.  So the members of each scope around the place are fused before it and behind it
apart (`fuse_append_cons`), and the difference is handed from scope to scope, under the end
of each.
-/
import PictureTree.Proofs.Canvas.Placement
import PictureTree.Proofs.Scalar.Exact

namespace PictureTree

variable {α : Type} [Scalar α]

/-! ## What items do beside drawing -/

namespace Item

omit [Scalar α] in
/-- What there is of a scope and a palette beside what is drawn. -/
def beside (h : Palette α × Scope α) : Palette α × Scope α := (h.1, { h.2 with drawn := [] })

omit [Scalar α] in
theorem eq_of_beside {h h' : Palette α × Scope α} (hb : beside h = beside h') :
    h' = (h.1, { h.2 with drawn := h'.2.drawn }) := by
  obtain ⟨p, s⟩ := h
  obtain ⟨p', s'⟩ := h'
  cases s
  cases s'
  cases hb
  rfl

omit [Scalar α] in
theorem palette_eq_of_beside {h h' : Palette α × Scope α} (hb : beside h = beside h') :
    h.1 = h'.1 := congrArg (fun h => h.1) hb

/-- What an item emits does not depend on what is drawn. -/
theorem emits_congr (o : Options α) (item : Item) {h h' : Palette α × Scope α}
    (hb : beside h = beside h') : item.emits o h = item.emits o h' := by
  rw [eq_of_beside hb]
  cases item with
  | scope head items => rfl
  | command c => cases c <;> rfl

/-- Nor does anything else that an item does, beside drawing. -/
theorem beside_drawIn (o : Options α) (item : Item) {h h' : Palette α × Scope α}
    (hb : beside h = beside h') : beside (item.drawIn o h) = beside (item.drawIn o h') := by
  rw [eq_of_beside hb]
  cases item with
  | scope head items => rfl
  | command c =>
      have hobey := h.2.obey_with_drawn o h.1 c h'.2.drawn
      exact (congrArg (fun s : Scope α => beside (h.1.learn c, s)) hobey).symm

theorem emitsAll_congr (o : Options α) (items : List Item) {h h' : Palette α × Scope α}
    (hb : beside h = beside h') : emitsAll o items h = emitsAll o items h' := by
  induction items generalizing h h' with
  | nil => rfl
  | cons item items ih =>
      rw [emitsAll, emitsAll, item.emits_congr o hb, ih (item.beside_drawIn o hb)]

theorem beside_drawAllIn (o : Options α) (items : List Item) {h h' : Palette α × Scope α}
    (hb : beside h = beside h') : beside (drawAllIn o items h) = beside (drawAllIn o items h') := by
  induction items generalizing h h' with
  | nil => exact hb
  | cons item items ih => exact ih (item.beside_drawIn o hb)

/-- A scope leaves the palette that its items leave, and its group. -/
theorem beside_drawIn_scope (o : Options α) (head : ScopeHead) {items items' : List Item}
    {h : Palette α × Scope α}
    (hpalette : (drawAllIn o items (h.1, .begin h.1 h.2.context head)).1
      = (drawAllIn o items' (h.1, .begin h.1 h.2.context head)).1) :
    beside ((Item.scope head items).drawIn o h) = beside ((Item.scope head items').drawIn o h) :=
  congrArg (fun p => (p, { h.2 with drawn := [] })) hpalette

theorem drawAllIn_append (o : Options α) (items items' : List Item) (h : Palette α × Scope α) :
    drawAllIn o (items ++ items') h = drawAllIn o items' (drawAllIn o items h) := by
  induction items generalizing h with
  | nil => rfl
  | cons item items ih => exact ih _

theorem drawAllIn_append_cons (o : Options α) (before after : List Item) (item : Item)
    (h : Palette α × Scope α) :
    drawAllIn o (before ++ item :: after) h
      = drawAllIn o after (item.drawIn o (drawAllIn o before h)) := drawAllIn_append o before _ h

theorem emitsAll_append (o : Options α) (items items' : List Item) (h : Palette α × Scope α) :
    emitsAll o (items ++ items') h
      = emitsAll o items h ++ emitsAll o items' (drawAllIn o items h) := by
  induction items generalizing h with
  | nil => rfl
  | cons item items ih =>
      rw [List.cons_append, emitsAll, emitsAll, ih, List.append_assoc]
      rfl

end Item

/-! ## Fusing around a shape -/

section Fuse

variable {tolerance : α} {shape : Shape α}

/-- A shape that closes no arc leaves what is drawn before it as it is. -/
theorem fuse_append_cons (h : ∀ arc, ¬ shape.Closes tolerance arc) (before after : List (Shape α)) :
    fuse tolerance (before ++ shape :: after)
      = fuse tolerance before ++ fuse tolerance (shape :: after) := by
  have hreverse : (fuse tolerance (before ++ shape :: after)).reverse
      = (fuse tolerance (shape :: after)).reverse ++ (fuse tolerance before).reverse :=
    calc (fuse tolerance (before ++ shape :: after)).reverse
        = (before ++ shape :: after).foldl (draw tolerance) [] := (foldl_draw _).symm
      _ = after.foldl (draw tolerance) (shape :: before.foldl (draw tolerance) []) := by
          rw [List.foldl_append, List.foldl_cons, draw_of_not_closes fun last _ => h last]
      _ = (fuse tolerance (shape :: after)).reverse ++ (fuse tolerance before).reverse := by
          rw [foldl_draw_cons, foldl_draw]
  rw [← List.reverse_reverse (fuse tolerance (before ++ _)), hreverse, List.reverse_append,
    List.reverse_reverse, List.reverse_reverse]

theorem fuse_group_cons (ms after : List (Shape α)) :
    fuse tolerance (.group ms :: after) = .group ms :: fuse tolerance after := by
  cases after with
  | nil => rfl
  | cons line after => rfl

end Fuse

/-! ## Replacing an item -/

namespace Item

/-- The members of the group of a scope in which some items are drawn. -/
def membersAt (o : Options α) (kind : ScopeKind) (items : List Item) (h : Palette α × Scope α) :
    List (Shape α) :=
  members o items h ((drawAllIn o items h).2.lastFigures kind)

/-- Two items that differ at most in what they draw leave what is drawn before and behind
them the same. -/
theorem exists_membersAt (o : Options α) (kind : ScopeKind) (before after : List Item)
    (h : Palette α × Scope α) {c d : Item}
    (hb : beside (c.drawIn o (drawAllIn o before h)) = beside (d.drawIn o (drawAllIn o before h))) :
    ∃ behind text : List (Shape α),
      membersAt o kind (before ++ c :: after) h = fuse o.chordTolerance
          (emitsAll o before h ++ (c.emits o (drawAllIn o before h) ++ behind)) ++ text ∧
      membersAt o kind (before ++ d :: after) h = fuse o.chordTolerance
          (emitsAll o before h ++ (d.emits o (drawAllIn o before h) ++ behind)) ++ text := by
  let start (item : Item) := item.drawIn o (drawAllIn o before h)
  let last (item : Item) := drawAllIn o after (start item)
  have hlast : (last d).2 = { (last c).2 with drawn := (last d).2.drawn } :=
    congrArg Prod.snd (eq_of_beside (beside_drawAllIn o after hb))
  have hfigures : (last d).2.lastFigures kind = (last c).2.lastFigures kind := by
    rw [hlast]
    cases kind <;> rfl
  have htext : (last d).2.textFigure? = (last c).2.textFigure? := by
    rw [hlast]
    rfl
  have hmembers (item : Item) : membersAt o kind (before ++ item :: after) h
      = fuse o.chordTolerance (emitsAll o before h ++ (item.emits o (drawAllIn o before h)
          ++ (emitsAll o after (start item) ++ ((last item).2.lastFigures kind).map .one)))
        ++ (last item).2.textFigure?.toList.map .one := by
    have hdraw : drawAllIn o (before ++ item :: after) h = last item :=
      drawAllIn_append_cons o before after item h
    have hemits : emitsAll o (before ++ item :: after) h = emitsAll o before h
        ++ (item.emits o (drawAllIn o before h) ++ emitsAll o after (start item)) :=
      emitsAll_append o before _ h
    rw [membersAt, members, hdraw, hemits, List.append_assoc, List.append_assoc]
  refine ⟨emitsAll o after (start c) ++ ((last c).2.lastFigures kind).map .one,
    (last c).2.textFigure?.toList.map .one, hmembers c, ?_⟩
  rw [hmembers d, hfigures, htext, ← emitsAll_congr o after hb]

end Item

/-! ## Exchanged line ends -/

/-- The figure with its two line ends exchanged. -/
def Figure.exchangeEnds (f : Figure α) : Figure α :=
  { f with paint := { f.paint with arrows := f.paint.arrows.map Arrows.swap } }

namespace Figure

omit [Scalar α] in
theorem exchangeEnds_asChord (f : Figure α) : f.exchangeEnds.asChord = f.asChord.exchangeEnds := by
  rcases f with ⟨outline, rotation, paint⟩
  cases outline <;> rfl

/-- No scope looks at line ends. -/
theorem exchangeEnds_move (e : Exit α) (f : Figure α) :
    (e.move f).exchangeEnds = e.move f.exchangeEnds := by
  cases e <;> rfl

theorem exchangeEnds_turnBy (f : Figure α) (c : Context α) :
    (f.turnBy c).exchangeEnds = f.exchangeEnds.turnBy c := by
  unfold turnBy
  split <;> rfl

end Figure

section Closing

variable {tolerance : α} {g : Figure α} {shape : Shape α}

/-- A line closes an arc whatever the ends of the arc are. -/
theorem closes_exchangeEnds (line : Shape α) :
    line.closes tolerance (.one g.exchangeEnds) = line.closes tolerance (.one g) := by
  have hiff : line.Closes tolerance (.one g.exchangeEnds) ↔ line.Closes tolerance (.one g) := by
    simp only [Shape.Closes, Grouping.one.injEq, Figure.exchangeEnds]
    constructor
    · rintro ⟨f, g', a, p, q, rfl, h⟩
      exact ⟨g, g', a, p, q, rfl, h⟩
    · rintro ⟨f, g', a, p, q, rfl, h⟩
      exact ⟨_, g', a, p, q, rfl, h⟩
  rw [Bool.eq_iff_iff, Shape.closes_iff, Shape.closes_iff, hiff]

/-- An arc is no line, so it closes nothing. -/
theorem not_closes_of_kind_arc (h : g.kind = .arc) (arc : Shape α) :
    ¬ Shape.Closes tolerance (.one g) arc := by
  rintro ⟨f, g', a, p, q, -, hg, -, hline, -⟩
  obtain rfl := Grouping.one.inj hg
  rw [Figure.kind, hline] at h
  cases h

theorem not_closes_group {ms : List (Shape α)} (arc : Shape α) :
    ¬ Shape.Closes tolerance (.group ms) arc := by
  rintro ⟨f, g, a, p, q, -, hg, -⟩
  cases hg

/-- What comes behind an arc makes a chord of it or not, whatever its ends are. -/
theorem exists_fuse_exchangeEnds (g : Figure α) (after : List (Shape α)) :
    ∃ f rest, (f = g ∨ f = g.asChord) ∧
      fuse tolerance (.one g.exchangeEnds :: after) = .one f.exchangeEnds :: rest ∧
      fuse tolerance (.one g :: after) = .one f :: rest := by
  cases after with
  | nil => exact ⟨g, [], Or.inl rfl, rfl, rfl⟩
  | cons line after =>
      rw [fuse, fuse, closes_exchangeEnds]
      split
      · refine ⟨g.asChord, fuse tolerance after, Or.inr rfl, ?_, rfl⟩
        rw [Shape.asChord, g.exchangeEnds_asChord]
      · exact ⟨g, fuse tolerance (line :: after), Or.inl rfl, rfl, rfl⟩

end Closing

/-! ## Places in a document -/

/-- A document with a place left open for one item: among the items of the document, or
among those of a scope in it. -/
inductive Item.Hole where
  | here (before after : List Item)
  | within (before : List Item) (head : ScopeHead) (inside : Hole) (after : List Item)

namespace Item

namespace Hole

/-- The document with an item at the place. -/
def fill (item : Item) : Hole → List Item
  | here before after => before ++ item :: after
  | within before head inside after => before ++ .scope head (inside.fill item) :: after

/-- The palette and the scope that an item at the place finds. -/
def state (o : Options α) : Hole → Palette α × Scope α → Palette α × Scope α
  | here before _, h => drawAllIn o before h
  | within before head inside _, h =>
      let around := drawAllIn o before h
      inside.state o (around.1, .begin around.1 around.2.context head)

/-- The ends of the scopes around the place, the innermost first. -/
def exits (o : Options α) : Hole → Palette α × Scope α → List (Exit α)
  | here .., _ => []
  | within before head inside _, h =>
      let around := drawAllIn o before h
      inside.exits o (around.1, .begin around.1 around.2.context head)
        ++ [head.exit around.1 around.2.context]

/-- How many figures the scopes around the place have drawn before it. -/
def painted (o : Options α) : Hole → Palette α × Scope α → Nat
  | here before _, h => (Grouping.leavesOfAll (drawAllIn o before h).2.drawn.reverse).length
  | within before head inside _, h =>
      let around := drawAllIn o before h
      (Grouping.leavesOfAll around.2.drawn.reverse).length
        + inside.painted o (around.1, .begin around.1 around.2.context head)

variable {o : Options α} {c d : Item}

/-- Items that differ at most in what they draw leave the same palette behind. -/
theorem palette_fill : ∀ (place : Hole) {h : Palette α × Scope α},
    beside (c.drawIn o (place.state o h)) = beside (d.drawIn o (place.state o h)) →
      (drawAllIn o (place.fill c) h).1 = (drawAllIn o (place.fill d) h).1
  | here before after, h, hb => by
      rw [fill, fill, drawAllIn_append_cons, drawAllIn_append_cons]
      exact palette_eq_of_beside (beside_drawAllIn o after hb)
  | within before head inside after, h, hb => by
      have hscope := beside_drawIn_scope o head (inside.palette_fill hb)
      rw [fill, fill, drawAllIn_append_cons, drawAllIn_append_cons]
      exact palette_eq_of_beside (beside_drawAllIn o after hscope)

/-- Items that do the same leave the same behind. -/
theorem drawAllIn_fill : ∀ (place : Hole) {h : Palette α × Scope α},
    c.drawIn o (place.state o h) = d.drawIn o (place.state o h) →
      drawAllIn o (place.fill c) h = drawAllIn o (place.fill d) h
  | here before after, h, hsame => by
      rw [fill, fill, drawAllIn_append_cons, drawAllIn_append_cons]
      exact congrArg (drawAllIn o after) hsame
  | within before head inside after, h, hsame => by
      let around := drawAllIn o before h
      have hscope : (Item.scope head (inside.fill c)).drawIn o around
          = (Item.scope head (inside.fill d)).drawIn o around := by
        rw [drawIn, drawIn, inside.drawAllIn_fill hsame]
      rw [fill, fill, drawAllIn_append_cons, drawAllIn_append_cons]
      exact congrArg (drawAllIn o after) hscope

end Hole

/-! ## Documents that differ in one arc -/

/-- Two items that draw the same arc, but with its line ends exchanged, and do nothing
else. -/
structure Mirrors (o : Options α) (h : Palette α × Scope α) (c d : Item) (g : Figure α) : Prop where
  rest : beside (c.drawIn o h) = beside (d.drawIn o h)
  mirrored : c.emits o h = [.one g.exchangeEnds]
  plain : d.emits o h = [.one g]
  kind : g.kind = .arc

namespace Mirrors

variable {o : Options α} {h : Palette α × Scope α} {c d : Item} {g : Figure α}

/-- In the scope that the items stand in. -/
theorem exists_differAt_here {before after : List Item} (hnew : h.2.drawn = [])
    (hm : Mirrors o (drawAllIn o before h) c d g) (kind : ScopeKind) :
    ∃ f, (f = g ∨ f = g.asChord) ∧
      Grouping.DifferAt (Hole.painted o (.here before after) h) f.exchangeEnds f
        (membersAt o kind (before ++ c :: after) h)
        (membersAt o kind (before ++ d :: after) h) := by
  obtain ⟨behind, text, hc, hd⟩ := exists_membersAt o kind before after h hm.rest
  obtain ⟨f, rest, hf, hmirrored, hplain⟩ := exists_fuse_exchangeEnds g behind
  refine ⟨f, hf, ?_⟩
  rw [hc, hd, hm.mirrored, hm.plain, List.singleton_append, List.singleton_append,
    fuse_append_cons (not_closes_of_kind_arc hm.kind),
    fuse_append_cons (not_closes_of_kind_arc (g := g.exchangeEnds) hm.kind), hmirrored, hplain,
    Hole.painted, reverse_drawn_drawAllIn o before hnew]
  exact ((((Grouping.differAt_one _ _).append_right rest).append_left _).append_right text)

/-- In any scope around the items. -/
theorem exists_differAt : ∀ (place : Hole) {h : Palette α × Scope α} (_ : h.2.drawn = [])
    (_ : Mirrors o (place.state o h) c d g) (kind : ScopeKind),
    ∃ f, (f = g ∨ f = g.asChord) ∧
      Grouping.DifferAt (place.painted o h) (Placed.result ⟨f, place.exits o h⟩).exchangeEnds
        (Placed.result ⟨f, place.exits o h⟩)
        (membersAt o kind (place.fill c) h) (membersAt o kind (place.fill d) h)
  | .here before after, h, hnew, hm, kind => hm.exists_differAt_here hnew kind
  | .within before head inside after, h, hnew, hm, kind => by
      let around := drawAllIn o before h
      let start := (around.1, Scope.begin around.1 around.2.context head)
      let e := head.exit around.1 around.2.context
      obtain ⟨f, hf, hdiffer⟩ := exists_differAt inside (h := start)
        (Scope.drawn_begin around.1 around.2.context head) hm head.kind
      have hscope (item : Item) : (Item.scope head (inside.fill item)).emits o around
          = [.group (Grouping.mapAll e.move (membersAt o head.kind (inside.fill item) start))] := by
        rw [emits_scope, Exit.apply_eq_map]
        rfl
      obtain ⟨behind, text, hc, hd⟩ := exists_membersAt o kind before after h
        (beside_drawIn_scope o head (inside.palette_fill hm.rest))
      have harc : Placed.result ⟨f, inside.exits o start ++ [e]⟩
          = e.move (Placed.result ⟨f, inside.exits o start⟩) := List.foldl_append
      refine ⟨f, hf, ?_⟩
      rw [Hole.fill, Hole.fill, hc, hd, hscope, hscope, List.singleton_append,
        List.singleton_append, fuse_append_cons not_closes_group,
        fuse_append_cons not_closes_group, fuse_group_cons, fuse_group_cons, Hole.exits, harc,
        Figure.exchangeEnds_move, Hole.painted, reverse_drawn_drawAllIn o before hnew]
      exact ((((hdiffer.mapAll e.move).group).append_right _).append_left _).append_right text

end Mirrors

end Item

/-! ## Clockwise arcs -/

namespace ShapeCommand

/-- An arc with all its arguments has a centre and a radius, or is not drawn; its angles are
of no account. -/
theorem exists_arc?_eq (c : Context α) (a : Arguments) (radius : Quantity) :
    ∃ circle? : Option (Point α × α), ∀ first second rest style,
      arc? c { a with numbers := radius :: first :: second :: rest } style
        = circle?.map fun circle => only (.arc ⟨circle.1, circle.2,
            Scalar.toRadians first.value, Scalar.toRadians second.value, style⟩) := by
  refine ⟨(c.firstPoint? a.coords).bind fun center =>
    (Context.checked? (Scalar.abs (c.units.length radius))).map fun r => (center, r), ?_⟩
  intro first second rest style
  cases hcenter : c.firstPoint? a.coords <;>
    cases hradius : Context.checked? (Scalar.abs (c.units.length radius)) <;>
    simp [arc?, radius?, hcenter, hradius]

/-- A clockwise arc is finished like the arc between the same angles in the other order,
except for its line ends. -/
theorem finish_clockwise_arc (c : Context α) (a : Arguments) (numbers numbers' : List Quantity)
    (center : Point α) (radius first second rotation : α) :
    finish (.arc true) c { a with numbers := numbers }
        (.arc ⟨center, radius, first, second, .arc⟩, rotation)
      = (finish (.arc false) c { a with numbers := numbers' }
          (.arc ⟨center, radius, second, first, .arc⟩, rotation)).exchangeEnds := by
  show Figure.turnBy _ c = (Figure.turnBy _ c).exchangeEnds
  rw [Figure.exchangeEnds_turnBy]
  rfl

/-- Both arcs are drawn, or none. -/
theorem figures?_clockwise (c : Context α) (palette : Palette α) (a : Arguments)
    (radius first second : Quantity) (rest : List Quantity) :
    let clockwise := ShapeCommand.figures? (.arc true) c palette
      { a with numbers := radius :: first :: second :: rest }
    let plain := ShapeCommand.figures? (.arc false) c palette
      { a with numbers := radius :: second :: first :: rest }
    (clockwise = none ∧ plain = none) ∨
      ∃ g : Figure α, g.kind = .arc ∧ clockwise = some [g.exchangeEnds] ∧ plain = some [g] := by
  intro clockwise plain
  let c' := context c palette a
  obtain ⟨circle?, harc⟩ := exists_arc?_eq c' a radius
  have hclockwise : clockwise = (circle?.map _).map _ :=
    congrArg (Option.map _) (harc first second rest .arc)
  have hplain : plain = (circle?.map _).map _ :=
    congrArg (Option.map _) (harc second first rest .arc)
  cases circle? with
  | none => exact Or.inl ⟨hclockwise, hplain⟩
  | some circle =>
      have hkind := kind_of_mem_figures? hplain _ (List.mem_singleton_self _)
      refine Or.inr ⟨_, hkind, hclockwise.trans ?_, hplain⟩
      exact congrArg (fun f => some [f]) (finish_clockwise_arc c' a _ _ ..)

end ShapeCommand

/-- A clockwise arc and the arc with its angles exchanged, wherever they are drawn. -/
theorem Item.exists_mirrors (o : Options α) (h : Palette α × Scope α) (a : Arguments)
    (radius first second : Quantity) (rest : List Quantity) :
    let clockwise := { a with numbers := radius :: first :: second :: rest }
    let plain := { a with numbers := radius :: second :: first :: rest }
    let c : Item := .command (.shape (.arc true) clockwise)
    let d : Item := .command (.shape (.arc false) plain)
    (ShapeCommand.figures? (.arc true) h.2.context h.1 clockwise = none ∧
      ShapeCommand.figures? (.arc false) h.2.context h.1 plain = none ∧
      c.drawIn o h = d.drawIn o h) ∨
    ∃ g, ShapeCommand.figures? (.arc true) h.2.context h.1 clockwise = some [g.exchangeEnds] ∧
      ShapeCommand.figures? (.arc false) h.2.context h.1 plain = some [g] ∧ Mirrors o h c d g := by
  intro clockwise plain c d
  have hdraw (command : ShapeCommand) (arguments : Arguments) :
      (Item.command (.shape command arguments)).drawIn o h
        = (h.1, h.2.emitAll o ((command.figures? h.2.context h.1 arguments).getD [])) := rfl
  have hemits (command : ShapeCommand) (arguments : Arguments) :
      (Item.command (.shape command arguments)).emits o h
        = ((command.figures? h.2.context h.1 arguments).getD []).map .one := rfl
  obtain ⟨hclockwise, hplain⟩ | ⟨g, hkind, hclockwise, hplain⟩ :=
    ShapeCommand.figures?_clockwise h.2.context h.1 a radius first second rest
  · exact Or.inl ⟨hclockwise, hplain, by rw [hdraw, hdraw, hclockwise, hplain]⟩
  · refine Or.inr ⟨g, hclockwise, hplain, ⟨?_, ?_, ?_, hkind⟩⟩
    · rw [hdraw, hdraw, Scope.emitAll_eq, Scope.emitAll_eq]
      rfl
    · rw [hemits, hclockwise]
      rfl
    · rw [hemits, hplain]
      rfl

namespace Canvas

theorem palette_drawItems (o : Options α) (palette : Palette α) (items : List Item) :
    (drawItems o palette items).palette
      = (Item.drawAllIn o items (palette, .ofContext (.initial o.ppc))).1 := by
  rw [drawItems, run_eventsOfAll]
  rfl

/-- The document as a scope. -/
theorem finish_eq_flatten_membersAt (o : Options α) (palette : Palette α) (items : List Item) :
    (drawItems o palette items).finish o = Grouping.flatten
      (Item.membersAt o .block items (palette, .ofContext (.initial o.ppc))) := by
  rw [finish_drawItems, ← root_drawItems, shapes_root_drawItems]
  rfl

/-- A clockwise arc means what the arc with its two angles exchanged means, wherever it
stands in a document.  Either both draw nothing, and the documents are drawn alike.  Or the
imports have the same groups, and the same figures in them but for one: the arc, as a chord if
a line took it in, has its line ends exchanged in the one. -/
theorem finish_clockwise (o : Options α) (palette : Palette α) (place : Item.Hole)
    (a : Arguments) (radius first second : Quantity) (rest : List Quantity) :
    let clockwise := { a with numbers := radius :: first :: second :: rest }
    let plain := { a with numbers := radius :: second :: first :: rest }
    let c := drawItems o palette (place.fill (.command (.shape (.arc true) clockwise)))
    let d := drawItems o palette (place.fill (.command (.shape (.arc false) plain)))
    let start := (palette, Scope.ofContext (.initial o.ppc))
    let here := place.state o start
    c.palette = d.palette ∧
    (ShapeCommand.figures? (.arc true) here.2.context here.1 clockwise = none ∧
        ShapeCommand.figures? (.arc false) here.2.context here.1 plain = none ∧
        c.finish o = d.finish o ∨
      ∃ g f, ShapeCommand.figures? (.arc true) here.2.context here.1 clockwise
          = some [g.exchangeEnds] ∧
        ShapeCommand.figures? (.arc false) here.2.context here.1 plain = some [g] ∧
        (f = g ∨ f = g.asChord) ∧
        let arc := Placed.result ⟨f, place.exits o start⟩
        Grouping.DifferAt (place.painted o start) arc.exchangeEnds arc (c.finish o)
          (d.finish o)) := by
  intro clockwise plain c d start here
  have hfinish (item : Item) : (drawItems o palette (place.fill item)).finish o
      = Grouping.flatten (Item.membersAt o .block (place.fill item) start) :=
    finish_eq_flatten_membersAt o palette _
  obtain ⟨hclockwise, hplain, hsame⟩ | ⟨g, hclockwise, hplain, hm⟩ :=
    Item.exists_mirrors o here a radius first second rest
  · have hitems := place.drawAllIn_fill hsame
    refine ⟨?_, Or.inl ⟨hclockwise, hplain, ?_⟩⟩
    · rw [palette_drawItems, palette_drawItems, hitems]
    · rw [finish_drawItems, finish_drawItems, hitems]
  · obtain ⟨f, hf, hdiffer⟩ := hm.exists_differAt place rfl .block
    refine ⟨?_, Or.inr ⟨g, f, hclockwise, hplain, hf, ?_⟩⟩
    · rw [palette_drawItems, palette_drawItems, place.palette_fill hm.rest]
    · rw [hfinish, hfinish]
      exact hdiffer.flatten

/-- A clockwise quarter with an arrow, which a line turns into a chord, in a placed scope with
a dot before it. -/
theorem finish_clockwise_placed_quarter :
    let coord (x y : Nat) : Coord := .cartesian ⟨.ofNat x, none⟩ ⟨.ofNat y, none⟩
    let number (n : Nat) : Quantity := ⟨.ofNat n, none⟩
    let quarter (clockwise : Bool) (first second : Nat) : Item :=
      .command (.shape (.arc clockwise)
        ⟨false, [], some "->", [coord 0 0], [number 1, number first, number second]⟩)
    let items (quarter : Item) : List Item :=
      [.scope (.place false none none (coord 1 1))
        [.command (.shape .dot ⟨false, [], none, [coord 1 1], []⟩), quarter,
          .command (.shape .line ⟨false, [], none, [coord 1 0, coord 0 1], []⟩)]]
    let o : Options ℝ := .standard
    let c := drawItems o .predefined (items (quarter true 90 0))
    let d := drawItems o .predefined (items (quarter false 0 90))
    c.palette = d.palette ∧
      ∃ arc : Figure ℝ, Grouping.DifferAt 1 arc.exchangeEnds arc (c.finish o) (d.finish o) := by
  intro coord number quarter items o c d
  let dot : Item := .command (.shape .dot ⟨false, [], none, [coord 1 1], []⟩)
  let line : Item := .command (.shape .line ⟨false, [], none, [coord 1 0, coord 0 1], []⟩)
  let place : Item.Hole := .within [] (.place false none none (coord 1 1)) (.here [dot] [line]) []
  let a : Arguments := ⟨false, [], some "->", [coord 0 0], []⟩
  -- nothing overflows, so the arc is drawn
  obtain ⟨hpalette, ⟨hnone, -⟩ | ⟨g, f, -, -, -, hdiffer⟩⟩ :=
    finish_clockwise o .predefined place a (number 1) (number 90) (number 0) []
  · cases hnone
  · exact ⟨hpalette, _, hdiffer⟩

end Canvas

end PictureTree
