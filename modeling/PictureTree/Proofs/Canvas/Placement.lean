/-
# `Proofs.Canvas.Placement` — where the figures of a document end up

Scopes are nested, and each of them moves or turns its group as a whole when it
ends.  A scene is a document before that: every figure as it was drawn in its
scope, with the ends of the scopes around it in the order in which they will
come.

    placed    a figure, and the ends of the scopes around it, innermost first
    result    the figure with these ends behind it

`Item.result_scenes` says that drawing is the scene with all ends behind it, by
recursion on the items: a scope puts its own end behind those of its figures.
What an end does to a figure is what the motion of its scope does to the points
of the figure as they are drawn (`Exit.drawnPoints_move`).  So all figures of an
imported document are drawn where the motions of their scopes take them.
-/
import PictureTree.Proofs.Canvas.Leaves
import PictureTree.Proofs.Shape.Motion
import PictureTree.Scalar.Double

namespace PictureTree

variable {α : Type}

/-! ## Scenes -/

/-- A figure as it was drawn, and the ends of the scopes around it, the innermost
first. -/
structure Placed (α : Type) where
  figure : Figure α
  exits : List (Exit α)

/-- A document before any of its scopes has moved its group. -/
abbrev Scene (α : Type) := Grouping (Placed α)

/-- The figure with a further scope around it. -/
def Placed.within (e : Exit α) (p : Placed α) : Placed α := { p with exits := p.exits ++ [e] }

/-- A figure that is drawn here. -/
def Scene.here (f : Figure α) : Scene α := .one ⟨f, []⟩

variable [Scalar α]

/-- The figure as the last scope leaves it. -/
def Placed.result (p : Placed α) : Figure α := p.exits.foldl (fun f e => e.move f) p.figure

namespace Scene

/-- The shape that becomes of a scene. -/
def result (s : Scene α) : Shape α := s.map Placed.result

/-- The scene with its arc, if it is one, drawn as a chord. -/
def asChord : Scene α → Scene α
  | .one p => .one { p with figure := p.figure.asChord }
  | .group ss => .group ss

/-- The scenes with every line that closes the arc before it taken in by that
arc. -/
def fuse (tolerance : α) : List (Scene α) → List (Scene α)
  | [] => []
  | [s] => [s]
  | arc :: line :: ss =>
      if line.result.closes tolerance arc.result then arc.asChord :: fuse tolerance ss
      else arc :: fuse tolerance (line :: ss)

/-- The group of a scope. -/
def scope (e : Exit α) (members : List (Scene α)) : Scene α :=
  .group (members.map fun s => s.map (Placed.within e))

end Scene

/-- The end of the scope that a head begins: a placed scope is turned about the
origin by its angle and then moved to its position, a turned one is turned about
its centre, and the others stay as they are. -/
def ScopeHead.exit (palette : Palette α) (outer : Context α) : ScopeHead → Exit α
  | .picture .. | .block | .custom .. => .keep
  | .place _ _ angle position =>
      .place ((outer.point? position).getD .origin)
        (Scalar.rotation (Scope.placeDegrees outer angle))
  | .turn params center angle =>
      .turn (((outer.child.setAll palette params).point? center).getD .origin)
        (Scalar.rotation angle.value)

mutual

/-- The scenes that an item leaves in the scope that it stands in. -/
def Item.scenes (o : Options α) : Item → Palette α × Scope α → List (Scene α)
  | .scope head items, (p, s) =>
      let start := (p, Scope.begin p s.context head)
      let inside := (Item.drawAllIn o items start).2
      [.scope (head.exit p s.context)
        (Scene.fuse o.chordTolerance
            (Item.scenesAll o items start ++ (inside.lastFigures head.kind).map .here)
          ++ inside.textFigure?.toList.map .here)]
  | .command c, (p, s) => (s.figures o p c).map .here

/-- The scenes that some items leave, one item after the other. -/
def Item.scenesAll (o : Options α) : List Item → Palette α × Scope α → List (Scene α)
  | [], _ => []
  | item :: items, h => item.scenes o h ++ Item.scenesAll o items (item.drawIn o h)

end

/-- The scenes of a document. -/
def Canvas.scenes (o : Options α) (palette : Palette α) (items : List Item) : List (Scene α) :=
  let start := (palette, Scope.ofContext (.initial o.ppc))
  Scene.fuse o.chordTolerance (Item.scenesAll o items start)
    ++ (Item.drawAllIn o items start).2.textFigure?.toList.map .here

/-! ## A scene and what becomes of it -/

theorem Figure.asChord_translate (f : Figure α) (dx dy : α) :
    (f.translate dx dy).asChord = f.asChord.translate dx dy := by
  rcases f with ⟨outline, rotation, paint⟩
  cases outline <;> rfl

theorem Figure.asChord_rotate (f : Figure α) (c : Point α) (angle : α) :
    (f.rotate c angle).asChord = f.asChord.rotate c angle := by
  rcases f with ⟨outline, rotation, paint⟩
  cases outline <;> rfl

theorem Exit.asChord_move (e : Exit α) (f : Figure α) : (e.move f).asChord = e.move f.asChord := by
  cases e with
  | keep => rfl
  | place position angle => rw [move, Figure.asChord_translate, Figure.asChord_rotate, move]
  | turn center angle => exact Figure.asChord_rotate f center angle

namespace Scene

theorem result_asChord (s : Scene α) : s.asChord.result = s.result.asChord := by
  cases s with
  | group ss => rfl
  | one p =>
      refine congrArg Grouping.one ?_
      obtain ⟨f, exits⟩ := p
      show exits.foldl _ f.asChord = (exits.foldl _ f).asChord
      exact List.foldl_hom Figure.asChord fun f e => e.asChord_move f |>.symm

theorem map_result_fuse (tolerance : α) (ss : List (Scene α)) :
    (fuse tolerance ss).map result = PictureTree.fuse tolerance (ss.map result) := by
  fun_induction fuse tolerance ss with
  | case1 => rfl
  | case2 s => rfl
  | case3 arc line ss h ih =>
      rw [List.map_cons, ih, result_asChord]
      simp [PictureTree.fuse, h]
  | case4 arc line ss h ih =>
      rw [List.map_cons, ih]
      simp [PictureTree.fuse, h]

theorem result_map_within (e : Exit α) (s : Scene α) :
    Scene.result (s.map (Placed.within e)) = e.apply s.result := by
  have hwithin (p : Placed α) : (p.within e).result = e.move p.result := List.foldl_append
  rw [result, Grouping.map_map, e.apply_eq_map, result, Grouping.map_map]
  simp only [hwithin]

/-- The group of a scope ends up as its members do, with the end of the scope
behind them. -/
theorem result_scope (e : Exit α) (ss : List (Scene α)) :
    (scope e ss).result = e.apply (.group (ss.map result)) := by
  rw [e.apply_group, List.map_map]
  show Grouping.group (Grouping.mapAll _ (ss.map _)) = _
  rw [Grouping.mapAll_eq_map, List.map_map]
  exact congrArg Grouping.group (List.map_congr_left fun s _ => result_map_within e s)

end Scene

/-! ## Drawing a document is the result of its scenes -/

/-- A scope gets its end when it begins. -/
theorem Scope.exit_begin (palette : Palette α) (outer : Context α) (head : ScopeHead) :
    (Scope.begin palette outer head).exit = head.exit palette outer := by
  cases head <;> rfl

/-- No command changes the end of its scope. -/
theorem Scope.exit_obey (o : Options α) (palette : Palette α) (s : Scope α) (c : Command) :
    (s.obey o palette c).exit = s.exit := by
  obtain ⟨context, goOn, hobey⟩ := s.exists_obey_eq o palette c
  rw [hobey, emitAll_eq]

theorem Item.exit_drawAllIn (o : Options α) (items : List Item) (h : Palette α × Scope α) :
    (Item.drawAllIn o items h).2.exit = h.2.exit := by
  induction items generalizing h with
  | nil => rfl
  | cons item items ih =>
      rw [Item.drawAllIn, ih]
      cases item with
      | scope head inner => rfl
      | command c => exact h.2.exit_obey o h.1 c

/-- The shapes of a new scope in which some items and then some last figures are
drawn, its text behind them. -/
def Item.members (o : Options α) (items : List Item) (h : Palette α × Scope α)
    (last : List (Figure α)) : List (Shape α) :=
  fuse o.chordTolerance (Item.emitsAll o items h ++ last.map .one)
    ++ (Item.drawAllIn o items h).2.textFigure?.toList.map .one

/-- A scope emits the group of its shapes, with the end of its head behind it. -/
theorem Item.emits_scope (o : Options α) (head : ScopeHead) (items : List Item) (p : Palette α)
    (s : Scope α) :
    let start := (p, Scope.begin p s.context head)
    let last := (Item.drawAllIn o items start).2.lastFigures head.kind
    (Item.scope head items).emits o (p, s)
      = [(head.exit p s.context).apply (.group (Item.members o items start last))] := by
  intro start last
  let inside := (Item.drawAllIn o items start).2
  have hexit : (inside.ended o head.kind).exit = head.exit p s.context := by
    rw [Scope.ended_eq]
    exact (Item.exit_drawAllIn o items _).trans (Scope.exit_begin p s.context head)
  have htext : (inside.ended o head.kind).textFigure? = inside.textFigure? := by
    rw [Scope.ended_eq]
    rfl
  show [(inside.ended o head.kind).leave] = _
  rw [Scope.leave, hexit, Scope.shapes, Item.drawn_ended_eq_fuse, htext]
  rfl

/-- The document is a scope that nothing begins or ends. -/
theorem Canvas.shapes_root_drawItems (o : Options α) (palette : Palette α) (items : List Item) :
    (Canvas.drawItems o palette items).root.shapes
      = Item.members o items (palette, .ofContext (.initial o.ppc)) [] := by
  rw [Canvas.root_drawItems, Scope.shapes, Item.reverse_drawn_drawAllIn o items rfl, Item.members,
    List.map_nil, List.append_nil]

mutual

/-- What an item emits is what becomes of its scenes. -/
theorem Item.result_scenes (o : Options α) :
    ∀ (item : Item) (h : Palette α × Scope α), (item.scenes o h).map Scene.result = item.emits o h
  | .command c, (p, s) => by
      rw [Item.scenes, Item.emits, List.map_map]
      rfl
  | .scope head items, (p, s) => by
      rw [Item.scenes, Item.emits_scope, List.map_singleton, Scene.result_scope, List.map_append,
        Scene.map_result_fuse, List.map_append, Item.result_scenesAll o items, List.map_map,
        List.map_map]
      rfl

theorem Item.result_scenesAll (o : Options α) :
    ∀ (items : List Item) (h : Palette α × Scope α),
      (Item.scenesAll o items h).map Scene.result = Item.emitsAll o items h
  | [], _ => rfl
  | item :: items, h => by
      rw [Item.scenesAll, List.map_append, Item.result_scenes o item,
        Item.result_scenesAll o items, Item.emitsAll]

end

namespace Canvas

theorem map_result_scenes (o : Options α) (palette : Palette α) (items : List Item) :
    (scenes o palette items).map Scene.result
      = (Item.drawAllIn o items (palette, .ofContext (.initial o.ppc))).2.shapes := by
  rw [scenes, List.map_append, Scene.map_result_fuse, Item.result_scenesAll, List.map_map,
    Scope.shapes, Item.reverse_drawn_drawAllIn o items rfl]
  rfl

/-- The figures of an import are those of the scenes of its document, from left
to right. -/
theorem leaves_finish_drawItems (o : Options α) (palette : Palette α) (items : List Item) :
    Grouping.leavesOfAll ((drawItems o palette items).finish o)
      = (Grouping.leavesOfAll (scenes o palette items)).map Placed.result := by
  rw [finish_drawItems, Grouping.leavesOfAll_flatten, ← map_result_scenes]
  show Grouping.leavesOfAll ((scenes o palette items).map (Grouping.map Placed.result)) = _
  rw [← Grouping.mapAll_eq_map, Grouping.leavesOfAll_mapAll]

/-- A text in a turned scope inside a placed one has two ends before it, a text
beside the turned scope has one, and a text of the document has none. -/
example :
    let right : Coord := .cartesian ⟨.decimal false 1 0, none⟩ .zero
    let turned : Item :=
      .scope (.turn [] right ⟨.decimal false 30 0, none⟩) [.command (.text "in")]
    let items : List Item :=
      [.scope (.place false none none right) [turned, .command (.text "out")],
        .command (.text "off")]
    (Grouping.leavesOfAll (scenes (.standard : Options Float) .predefined items)).map
      (fun placed => placed.exits.length) = [2, 1, 0] := by
  decide

end Canvas

/-! ## Motions -/

section Motions

variable {α : Type} [ExactScalar α]

/-- The motion of the plane that a scope gives to what is drawn in it. -/
def Exit.motion (e : Exit α) (p : Point α) : Point α :=
  match e with
  | .keep => p
  | .place position angle => (p.rotateAround .origin angle).translate position.x position.y
  | .turn center angle => p.rotateAround center angle

/-- A figure leaves a scope drawn where the motion of the scope takes it. -/
theorem Exit.drawnPoints_move (e : Exit α) (f : Figure α) :
    (e.move f).drawnPoints = f.drawnPoints.map e.motion := by
  cases e with
  | keep => exact (List.map_id' f.drawnPoints).symm
  | place position angle =>
      rw [move, Figure.drawnPoints_translate, Figure.drawnPoints_rotate, List.map_map]
      rfl
  | turn center angle => exact f.drawnPoints_rotate center angle

theorem Placed.drawnPoints_result (p : Placed α) :
    p.result.drawnPoints
      = p.exits.foldl (fun points e => points.map e.motion) p.figure.drawnPoints :=
  (List.foldl_hom Figure.drawnPoints fun f e => (e.drawnPoints_move f).symm).symm

end Motions

end PictureTree
