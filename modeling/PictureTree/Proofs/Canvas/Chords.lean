/-
# `Proofs.Canvas.Chords` — lines that turn arcs into chords

Shapes are drawn into a scope one after the other, and a line that closes the
arc drawn just before it turns that arc into a chord instead of being kept.
Whether it does is decided when it comes, by the newest shape of the scope,
which may have been changed since it was drawn.

Here the same is said of the whole list of shapes at once.  `fuse` reads it from
the left and looks one shape ahead:

    an arc, and a line that closes it    the arc as a chord
    any other shape                      the shape itself

`foldl_draw` says that drawing ends with this list.  Two facts make the look
back and the look ahead agree: nothing closes a chord, and nothing closes a
line.  So the newest shape closes an arc if and only if it closes the shape
drawn right before it, and no arc takes in a second line.
-/
import PictureTree.Proofs.Canvas.Nesting
import PictureTree.Proofs.Shape.Kinds

namespace PictureTree

variable {α : Type} [Scalar α]

/-! ## Closing an arc -/

/-- The figure with its arc, if it is one, drawn as a chord. -/
def Figure.asChord (f : Figure α) : Figure α :=
  match f.outline with
  | .arc a => { f with outline := .arc { a with style := .chord } }
  | _ => f

namespace Shape

/-- The shape with its arc, if it is one, drawn as a chord. -/
def asChord : Shape α → Shape α
  | .one f => .one f.asChord
  | .group gs => .group gs

/-- A line of two points that joins the ends of an arc drawn without a chord. -/
def Closes (tolerance : α) (line arc : Shape α) : Prop :=
  ∃ f g a p q, arc = .one f ∧ line = .one g ∧ f.outline = .arc a ∧ g.outline = .polyline [p, q] ∧
    a.style = .arc ∧ a.isChord f.rotation p q tolerance = true

/-- Whether a line closes an arc. -/
def closes (tolerance : α) (line arc : Shape α) : Bool :=
  match arc, line with
  | .one f, .one g => (f.chord? g tolerance).isSome
  | _, _ => false

end Shape

theorem Figure.chord?_eq_some_iff {f g chord : Figure α} {tolerance : α} :
    f.chord? g tolerance = some chord ↔
      chord = f.asChord ∧ ∃ a p q, f.outline = .arc a ∧ g.outline = .polyline [p, q] ∧
        a.style = .arc ∧ a.isChord f.rotation p q tolerance = true := by
  unfold chord?
  split
  · next a p q hf hg =>
      simp only [asChord, hf, hg]
      grind
  · next hne => grind

namespace Shape

variable {tolerance : α} {line arc shape : Shape α}

theorem closes_iff : line.closes tolerance arc = true ↔ line.Closes tolerance arc := by
  cases arc with
  | group gs => simp [closes, Closes]
  | one f =>
      cases line with
      | group gs => simp [closes, Closes]
      | one g => simp [closes, Closes, Option.isSome_iff_exists, Figure.chord?_eq_some_iff]

/-- A chord is no arc any more. -/
theorem not_closes_asChord : ¬ line.Closes tolerance arc.asChord := by
  rintro ⟨f, g, a, p, q, harc, -, hf, -, hstyle, -⟩
  cases arc with
  | group gs => cases harc
  | one f' =>
      obtain rfl := Grouping.one.inj harc
      unfold Figure.asChord at hf
      split at hf
      · cases hf
        cases hstyle
      · next hne => exact hne a hf

/-- A line is no arc. -/
theorem Closes.not_closes (h : line.Closes tolerance arc) : ¬ shape.Closes tolerance line := by
  rintro ⟨f, -, a, -, -, hf, -, ha, -⟩
  obtain ⟨-, g, -, p, q, -, hg, -, hline, -⟩ := h
  obtain rfl := Grouping.one.inj (hf.symm.trans hg)
  cases ha.symm.trans hline

end Shape

/-! ## Drawing one shape -/

variable {tolerance : α} {drawn rest : List (Shape α)} {line arc shape next : Shape α}

theorem draw_of_closes (h : line.Closes tolerance arc) :
    draw tolerance (arc :: rest) line = arc.asChord :: rest := by
  obtain ⟨f, g, a, p, q, rfl, rfl, hf, hg, hstyle, hchord⟩ := h
  have hsome : f.chord? g tolerance = some f.asChord :=
    Figure.chord?_eq_some_iff.mpr ⟨rfl, a, p, q, hf, hg, hstyle, hchord⟩
  simp only [draw, hsome]
  rfl

theorem draw_of_not_closes (h : ∀ last ∈ drawn.head?, ¬ shape.Closes tolerance last) :
    draw tolerance drawn shape = shape :: drawn := by
  unfold draw
  split
  · next f rest g =>
      have hnone : f.chord? g tolerance = none := by
        refine Option.eq_none_iff_forall_ne_some.mpr fun chord hchord => ?_
        obtain ⟨-, a, p, q, hf, hg, hstyle, hjoins⟩ := Figure.chord?_eq_some_iff.mp hchord
        exact h (.one f) rfl ⟨f, g, a, p, q, rfl, rfl, hf, hg, hstyle, hjoins⟩
      rw [hnone]
  · rfl

/-- The newest shape closes nothing that the shape drawn last does not close:
either it is that shape, or it is a chord that took that shape in. -/
theorem closes_head_draw :
    (∃ last ∈ (draw tolerance drawn shape).head?, next.Closes tolerance last) ↔
      next.Closes tolerance shape := by
  by_cases h : ∃ arc ∈ drawn.head?, shape.Closes tolerance arc
  · obtain ⟨arc, harc, hcloses⟩ := h
    obtain ⟨rest, rfl⟩ := List.head?_eq_some_iff.mp harc
    rw [draw_of_closes hcloses]
    have hchord : ¬ next.Closes tolerance arc.asChord := Shape.not_closes_asChord
    simpa [hcloses.not_closes] using hchord
  · rw [draw_of_not_closes fun last hlast hcloses => h ⟨last, hlast, hcloses⟩]
    simp

/-! ## Drawing many shapes -/

/-- The shapes with every line that closes the arc before it taken in by that
arc. -/
def fuse (tolerance : α) : List (Shape α) → List (Shape α)
  | [] => []
  | [shape] => [shape]
  | arc :: line :: shapes =>
      if line.closes tolerance arc then arc.asChord :: fuse tolerance shapes
      else arc :: fuse tolerance (line :: shapes)

/-- A chord takes in no line. -/
theorem fuse_asChord_cons (shapes : List (Shape α)) :
    fuse tolerance (arc.asChord :: shapes) = arc.asChord :: fuse tolerance shapes := by
  cases shapes with
  | nil => rfl
  | cons line shapes =>
      have hopen : line.closes tolerance arc.asChord = false :=
        Bool.eq_false_iff.mpr fun h => Shape.not_closes_asChord (Shape.closes_iff.mp h)
      simp [fuse, hopen]

theorem foldl_draw_cons (shapes : List (Shape α)) :
    shapes.foldl (draw tolerance) (shape :: drawn)
      = (fuse tolerance (shape :: shapes)).reverse ++ drawn := by
  induction shapes generalizing shape drawn with
  | nil => rfl
  | cons next shapes ih =>
      rw [List.foldl_cons]
      by_cases h : next.Closes tolerance shape
      · rw [draw_of_closes h, ih, fuse_asChord_cons, fuse, if_pos (Shape.closes_iff.mpr h)]
      · have hkept : draw tolerance (shape :: drawn) next = next :: shape :: drawn :=
          draw_of_not_closes (by simpa using h)
        rw [hkept, ih, fuse, if_neg (mt Shape.closes_iff.mp h), List.reverse_cons,
          List.append_assoc]
        rfl

/-- Drawing shapes one after the other, each with a look at the newest one, is
fusing their list. -/
theorem foldl_draw (shapes : List (Shape α)) :
    shapes.foldl (draw tolerance) [] = (fuse tolerance shapes).reverse := by
  cases shapes with
  | nil => rfl
  | cons shape shapes =>
      rw [List.foldl_cons, draw_of_not_closes (by simp), foldl_draw_cons, List.append_nil]

/-! ## Which shapes are kept -/

/-- Whether the shape at a position closes the shape right before it. -/
def takenIn (tolerance : α) (emitted : List (Shape α)) : Nat → Bool
  | 0 => false
  | n + 1 =>
      match emitted[n]?, emitted[n + 1]? with
      | some arc, some line => line.closes tolerance arc
      | _, _ => false

theorem takenIn_succ_eq_true_iff {emitted : List (Shape α)} {n : Nat} :
    takenIn tolerance emitted (n + 1) = true ↔
      ∃ arc line, emitted[n]? = some arc ∧ emitted[n + 1]? = some line ∧
        line.Closes tolerance arc := by
  rw [takenIn]
  cases emitted[n]? with
  | none => simp
  | some arc =>
      cases emitted[n + 1]? with
      | none => simp
      | some line => simp [Shape.closes_iff]

/-- What is left of a shape at a position, where `taken` says of every position
whether its shape is taken in by the one before. -/
def keptAt (taken : Nat → Bool) : Shape α × Nat → Option (Shape α)
  | (shape, n) =>
      if taken n then none else if taken (n + 1) then some shape.asChord else some shape

/-- Fusing a list at its positions from `k` on. -/
theorem fuse_eq_filterMap (taken : Nat → Bool) (emitted : List (Shape α)) (k : Nat)
    (hfirst : taken k = false)
    (hnext : ∀ i, taken (k + (i + 1)) = takenIn tolerance emitted (i + 1)) :
    fuse tolerance emitted = (emitted.zipIdx k).filterMap (keptAt taken) := by
  fun_induction fuse tolerance emitted generalizing k with
  | case1 => rfl
  | case2 shape =>
      have hlast : taken (k + 1) = false := hnext 0
      simp [keptAt, hfirst, hlast]
  | case3 arc line shapes h ih =>
      have hline : taken (k + 1) = true := (hnext 0).trans h
      -- the shape behind the line is not taken in, for it would close a line
      have hafter : taken (k + 2) = false := by
        refine Bool.eq_false_iff.mpr fun htaken => ?_
        obtain ⟨line', next, hline', -, hcloses⟩ :=
          takenIn_succ_eq_true_iff.mp ((hnext 1).symm.trans htaken)
        obtain rfl : line = line' := by simpa using hline'
        exact (Shape.closes_iff.mp h).not_closes hcloses
      rw [ih (k + 2) hafter fun i => by rw [Nat.add_right_comm k 2, Nat.add_assoc, hnext]; rfl]
      simp [keptAt, hfirst, hline]
  | case4 arc line shapes h ih =>
      have hline : taken (k + 1) = false := (hnext 0).trans (Bool.eq_false_iff.mpr h)
      rw [ih (k + 1) hline fun i => by rw [Nat.add_right_comm k 1, Nat.add_assoc, hnext]; rfl]
      simp [keptAt, hfirst, hline]

/-! ## What a scope ends with -/

namespace Scope

theorem foldl_emit (o : Options α) (s : Scope α) (emitted : List (Shape α)) :
    emitted.foldl (emit o) s
      = { s with drawn := emitted.foldl (PictureTree.draw o.chordTolerance) s.drawn } := by
  induction emitted generalizing s with
  | nil => rfl
  | cons shape emitted ih => exact ih (s.emit o shape)

/-- A shape is taken in if it closes the newest shape of its scope. -/
theorem takenIn_iff_closes_newest {o : Options α} {s : Scope α} {emitted : List (Shape α)}
    {n : Nat} (h : emitted[n]? = some shape) :
    takenIn o.chordTolerance emitted n = true ↔
      ∃ last ∈ ((emitted.take n).foldl (emit o) { s with drawn := [] }).drawn.head?,
        shape.Closes o.chordTolerance last := by
  rw [foldl_emit]
  cases n with
  | zero => simp [takenIn]
  | succ n =>
      have hn : n < emitted.length := by
        have hlength := (List.getElem?_eq_some_iff.mp h).1
        omega
      rw [List.take_add_one, List.foldl_append, List.getElem?_eq_getElem hn, Option.toList_some,
        List.foldl_cons, List.foldl_nil, closes_head_draw, takenIn_succ_eq_true_iff]
      simp [h, List.getElem?_eq_getElem hn]

/-- Whatever is emitted into a scope, and in whatever order, the scope ends with
it, text aside, except for the lines that are taken in.  Those are the lines that
close the newest shape of the scope when they come, and each was emitted right
behind the arc that takes it in. -/
theorem emitted_shapes_fuse (o : Options α) (s : Scope α) (emitted : List (Shape α)) :
    let after (n : Nat) := (emitted.take n).foldl (emit o) { s with drawn := [] }
    ∃ taken : Nat → Bool,
      (∀ n shape, emitted[n]? = some shape →
        (taken n = true ↔ ∃ last ∈ (after n).drawn.head?, shape.Closes o.chordTolerance last)) ∧
      (∀ n, taken n = true → ∃ m arc line, n = m + 1 ∧ emitted[m]? = some arc ∧
        emitted[n]? = some line ∧ line.Closes o.chordTolerance arc ∧ taken m = false) ∧
      (after emitted.length).shapes
        = emitted.zipIdx.filterMap (keptAt taken) ++ s.textFigure?.toList.map .one := by
  refine ⟨takenIn o.chordTolerance emitted, fun n shape => takenIn_iff_closes_newest,
    fun n htaken => ?_, ?_⟩
  · cases n with
    | zero => cases htaken
    | succ m =>
        obtain ⟨arc, line, harc, hline, hcloses⟩ := takenIn_succ_eq_true_iff.mp htaken
        refine ⟨m, arc, line, rfl, harc, hline, hcloses, Bool.eq_false_iff.mpr fun hm => ?_⟩
        -- otherwise the arc itself would be a line
        obtain ⟨last, -, hlast⟩ := (takenIn_iff_closes_newest (s := s) harc).mp hm
        exact hlast.not_closes hcloses
  · have hfused : fuse o.chordTolerance emitted
        = emitted.zipIdx.filterMap (keptAt (takenIn o.chordTolerance emitted)) :=
      fuse_eq_filterMap _ emitted 0 rfl fun i => by rw [Nat.zero_add]
    show ((emitted.take emitted.length).foldl (emit o) { s with drawn := [] }).shapes = _
    rw [List.take_length, foldl_emit, shapes, foldl_draw, List.reverse_reverse, hfused]
    rfl

/-! ## What items emit -/

/-- The figures that a command draws in a scope. -/
def figures (o : Options α) (palette : Palette α) (s : Scope α) : Command → List (Figure α)
  | .shape command a => (command.figures? s.context palette a).getD []
  | .includePicture params path => (picture? o s.context params path).toList
  | _ => []

/-- No command draws a text. -/
theorem kind_of_mem_figures {o : Options α} {palette : Palette α} {s : Scope α} {c : Command}
    {f : Figure α} (h : f ∈ s.figures o palette c) : f.kind ≠ .text := by
  cases c with
  | shape command a =>
      cases hfs : command.figures? s.context palette a with
      | none => simp [figures, hfs] at h
      | some fs =>
          have hf : f ∈ fs := by simpa [figures, hfs] using h
          rw [ShapeCommand.kind_of_mem_figures? hfs f hf]
          cases command <;> nofun
  | includePicture params path =>
      have hf : picture? o s.context params path = some f := by simpa [figures] using h
      obtain ⟨size, -, hfigure⟩ := Option.bind_eq_some_iff.mp hf
      rw [Inclusion.kind_of_figure? hfigure]
      nofun
  | set | framedBox | defineColor | newColor | useColor | textColor | path | text => cases h

/-- A merged run is drawn as a curve or a broken line of its own kind. -/
theorem kind_runFigure (s : Scope α) (run : PathRun α) : (s.runFigure run).kind = .freehand :=
  Figure.kind_turnBy _ _

theorem drawn_emitAll (o : Options α) (s : Scope α) (fs : List (Figure α)) :
    (s.emitAll o fs).drawn
      = (fs.map .one).foldl (PictureTree.draw o.chordTolerance) s.drawn := by
  rw [emitAll_eq, List.foldl_map]

/-- A command draws its figures, goes on with the path if there is one, and may
change the context; the rest of its scope stays. -/
theorem exists_obey_eq (o : Options α) (palette : Palette α) (s : Scope α) (c : Command) :
    ∃ (context : Context α) (goOn : Path α → Path α), s.obey o palette c
      = { s.emitAll o (s.figures o palette c) with context := context, path := s.path.map goOn } := by
  have hset (context : Context α) : { s with context := context }
      = ({ s.emitAll o [] with context := context, path := s.path.map id } : Scope α) := by
    rw [Option.map_id]
    rfl
  cases c with
  | shape | includePicture =>
      refine ⟨s.context, id, ?_⟩
      simp only [obey, figures, emitAll_eq, Option.map_id, id]
  | path k => exact ⟨s.context, fun path => (trace? s.context path k).getD path, rfl⟩
  | set | defineColor | newColor => exact ⟨_, id, hset _⟩
  | framedBox name text | text word =>
      simp only [obey, write]
      split <;> exact ⟨_, id, hset _⟩
  | useColor spec =>
      simp only [obey, chooseSpec]
      split <;> exact ⟨_, id, hset _⟩
  | textColor spec text =>
      simp only [obey, chooseSpec, write]
      split <;> split <;> exact ⟨_, id, hset _⟩

/-- A command draws nothing but its figures. -/
theorem drawn_obey (o : Options α) (palette : Palette α) (s : Scope α) (c : Command) :
    (s.obey o palette c).drawn
      = ((s.figures o palette c).map .one).foldl (PictureTree.draw o.chordTolerance) s.drawn := by
  obtain ⟨context, goOn, hobey⟩ := s.exists_obey_eq o palette c
  rw [hobey]
  exact drawn_emitAll o s _

/-- What a command does beside drawing does not depend on what is drawn. -/
theorem obey_with_drawn (o : Options α) (palette : Palette α) (s : Scope α) (c : Command)
    (drawn : List (Shape α)) :
    ({ s with drawn := drawn } : Scope α).obey o palette c
      = { s.obey o palette c with
          drawn := (({ s with drawn := drawn } : Scope α).obey o palette c).drawn } := by
  cases c with
  | shape | includePicture => simp only [obey, emitAll_eq]
  | set | path | defineColor | newColor => rfl
  | framedBox name text | text word =>
      simp only [obey, write]
      split <;> rfl
  | useColor spec =>
      simp only [obey, chooseSpec]
      split <;> rfl
  | textColor spec text =>
      simp only [obey, chooseSpec, write]
      split <;> split <;> rfl

/-- The end of a scope changes nothing but its path and what is drawn in it. -/
theorem ended_eq (o : Options α) (s : Scope α) (kind : ScopeKind) :
    s.ended o kind
      = { s with drawn := (s.ended o kind).drawn, path := (s.ended o kind).path } := by
  cases kind with
  | picture | block | place | turn => rfl
  | custom =>
      simp only [ended, flush]
      split
      · rfl
      · rw [emitAll_eq]

/-- The runs of a path that no scope has drawn yet. -/
def undrawn (path : Option (Path α)) : List (PathRun α) := path.toList.flatMap Path.runs

/-- The figures that the end of a scope draws: the runs of a custom path. -/
def lastFigures (s : Scope α) : ScopeKind → List (Figure α)
  | .custom => (undrawn s.path).map s.runFigure
  | _ => []

theorem kind_of_mem_lastFigures {s : Scope α} {kind : ScopeKind} {f : Figure α}
    (h : f ∈ s.lastFigures kind) : f.kind = .freehand := by
  cases kind with
  | picture | block | place | turn => cases h
  | custom =>
      obtain ⟨run, -, rfl⟩ := List.mem_map.mp h
      exact s.kind_runFigure run

theorem kind_ne_text_of_mem_lastFigures {s : Scope α} {kind : ScopeKind} {f : Figure α}
    (h : f ∈ s.lastFigures kind) : f.kind ≠ .text := by
  rw [kind_of_mem_lastFigures h]
  nofun

/-- The end of a scope draws nothing but the runs of its path. -/
theorem drawn_ended (o : Options α) (s : Scope α) (kind : ScopeKind) :
    (s.ended o kind).drawn
      = ((s.lastFigures kind).map .one).foldl (PictureTree.draw o.chordTolerance) s.drawn := by
  cases kind with
  | picture | block | place | turn => rfl
  | custom =>
      cases hpath : s.path with
      | none => simp [ended, flush, lastFigures, undrawn, hpath]
      | some path =>
          simp only [ended, flush, lastFigures, undrawn, hpath, Option.toList_some,
            List.flatMap_cons, List.flatMap_nil, List.append_nil]
          exact drawn_emitAll o s _

/-- A scope begins with nothing drawn. -/
theorem drawn_begin (palette : Palette α) (outer : Context α) (head : ScopeHead) :
    (begin palette outer head).drawn = [] := by
  cases head <;> rfl

end Scope

/-- The shapes that an item emits into the scope that it stands in. -/
def Item.emits (o : Options α) : Item → Palette α × Scope α → List (Shape α)
  | .scope head items, (p, s) =>
      [((Item.drawAllIn o items (p, .begin p s.context head)).2.ended o head.kind).leave]
  | .command c, (p, s) => (s.figures o p c).map .one

/-- The shapes that some items emit, one item after the other. -/
def Item.emitsAll (o : Options α) : List Item → Palette α × Scope α → List (Shape α)
  | [], _ => []
  | item :: items, h => item.emits o h ++ emitsAll o items (item.drawIn o h)

/-- What items draw in a scope is what they emit, one shape after the other. -/
theorem Item.drawn_drawAllIn (o : Options α) (items : List Item) (h : Palette α × Scope α) :
    (Item.drawAllIn o items h).2.drawn
      = (Item.emitsAll o items h).foldl (draw o.chordTolerance) h.2.drawn := by
  induction items generalizing h with
  | nil => rfl
  | cons item items ih =>
      rw [Item.drawAllIn, ih, Item.emitsAll, List.foldl_append]
      congr 1
      cases item with
      | scope head inner => rfl
      | command c => exact h.2.drawn_obey o h.1 c

/-- What items draw in a new scope is what they emit, fused. -/
theorem Item.reverse_drawn_drawAllIn (o : Options α) (items : List Item)
    {h : Palette α × Scope α} (hnew : h.2.drawn = []) :
    (Item.drawAllIn o items h).2.drawn.reverse
      = fuse o.chordTolerance (Item.emitsAll o items h) := by
  rw [Item.drawn_drawAllIn, hnew, foldl_draw, List.reverse_reverse]

/-- The scope of any head ends with what its items emit and with the runs of its
path, fused. -/
theorem Item.drawn_ended_eq_fuse (o : Options α) (p : Palette α) (c : Context α)
    (head : ScopeHead) (items : List Item) :
    let inside := (Item.drawAllIn o items (p, .begin p c head)).2
    (inside.ended o head.kind).drawn.reverse
      = fuse o.chordTolerance (Item.emitsAll o items (p, .begin p c head)
          ++ (inside.lastFigures head.kind).map .one) := by
  intro inside
  rw [Scope.drawn_ended, Item.drawn_drawAllIn, Scope.drawn_begin, ← List.foldl_append, foldl_draw,
    List.reverse_reverse]

end PictureTree
