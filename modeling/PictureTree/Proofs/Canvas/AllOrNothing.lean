/-
# `Proofs.Canvas.AllOrNothing` — no command fails halfway

A command that draws, goes along a path or defines a colour needs something:
coordinates, arguments, finite numbers, a picture file, values that a colour
model admits.  `Command.Resolves` says what it needs, and `Canvas.Does` what it
does once it has that.  It changes one thing:

    a shape, a picture    what is drawn in the innermost scope
    a path command        the path of the innermost scope
    a colour              the palette

A command that does not resolve changes nothing: all figures of a shape and all
points of a path are there before the first of them is drawn, so a bad one at
the end of a long list is found in time.  Either way the contexts of all scopes
stay, since the parameters that a command carries are set in a copy.

What a command does not compute with, it does not need.  The control points of a
curve and the angle of a polar size may be as far out as they like
(`step_unread_coordinates`).
-/
import PictureTree.Proofs.Canvas.Nesting
import PictureTree.Proofs.Shape.Resolution
import PictureTree.Scalar.Double

open scoped PictureTree.Scalar

namespace PictureTree

/-- Commands that draw something, go along a path, or define a colour. -/
def Command.builds : Command → Bool
  | .shape .. | .path _ | .includePicture .. | .defineColor .. | .newColor .. => true
  | _ => false

variable {α : Type} [Scalar α]

/-! ## What a command needs, and what it does -/

/-- A command that has all that it needs on a canvas. -/
def Command.Resolves (o : Options α) (c : Canvas α) : Command → Prop
  | .shape command a =>
      command.Resolves (ShapeCommand.context c.innermost.context c.palette a) a
  | .path k => k.Resolves c.innermost.context
  | .includePicture params file =>
      ∃ size, o.pictureSize? file = some size ∧
        AllFinite (Inclusion.ofParams c.innermost.context.units params size).numbers
  | .defineColor _ model values => ∃ color : Color α, Color.ofModel? model values = .ok color
  | .newColor kind _ values => ∃ color : Color α, Color.ofModel? kind.model values = .ok color
  | _ => True

namespace Canvas

/-- The canvas with some figures drawn in the innermost scope. -/
def withFigures (o : Options α) (c : Canvas α) (fs : List (Figure α)) : Canvas α :=
  c.put (c.palette, { c.innermost with
    drawn := fs.foldl (fun drawn f => draw o.chordTolerance drawn (.one f)) c.innermost.drawn })

/-- The canvas with the path of the innermost scope changed, if it has one. -/
def withPath (c : Canvas α) (go : Path α → Path α) : Canvas α :=
  c.put (c.palette, { c.innermost with path := c.innermost.path.map go })

/-- What a command that resolves does to a canvas. -/
inductive Does (o : Options α) (c : Canvas α) : Command → Canvas α → Prop
  | shape {command : ShapeCommand} {a : Arguments} {fs : List (Figure α)} :
      command.figures? c.innermost.context c.palette a = some fs →
      Does o c (.shape command a) (c.withFigures o fs)
  | picture {params : List Param} {path : String} {f : Figure α} :
      Scope.picture? o c.innermost.context params path = some f →
      Does o c (.includePicture params path) (c.withFigures o [f])
  | path {k : PathCommand} {go : Path α → Path α} :
      (∀ path, Scope.trace? c.innermost.context path k = some (go path)) →
      Does o c (.path k) (c.withPath go)
  | defineColor {name model values : String} {color : Color α} :
      Color.ofModel? model values = .ok color →
      Does o c (.defineColor name model values) { c with palette := c.palette.define name color }
  | newColor {kind : NewColor} {name values : String} {color : Color α} :
      Color.ofModel? kind.model values = .ok color →
      Does o c (.newColor kind name values) { c with palette := c.palette.define name color }

end Canvas

/-! ## Figures, pictures and colours -/

theorem ShapeCommand.figures?_isSome_iff {command : ShapeCommand} {c : Context α}
    {palette : Palette α} {a : Arguments} :
    (command.figures? c palette a).isSome = true ↔
      command.Resolves (ShapeCommand.context c palette a) a := by
  rw [figures?, Option.isSome_map, outlines?_isSome_iff]

namespace Scope

theorem picture?_isSome_iff {o : Options α} {c : Context α} {params : List Param}
    {path : String} :
    (picture? o c params path).isSome = true ↔
      ∃ size, o.pictureSize? path = some size ∧
        AllFinite (Inclusion.ofParams c.units params size).numbers := by
  rw [picture?]
  cases hsize : o.pictureSize? path with
  | none => simp
  | some size => simp [Inclusion.figure?_isSome_iff]

end Scope

namespace Palette

theorem defineModel_eq_self {p : Palette α} {name model values : String}
    (h : ¬ ∃ color : Color α, Color.ofModel? model values = .ok color) :
    p.defineModel name model values = p := by
  rw [defineModel]
  cases hc : (Color.ofModel? model values : Except ResolveError (Color α)) with
  | ok color => exact absurd ⟨color, hc⟩ h
  | error e => rfl

theorem defineModel_eq_define {p : Palette α} {name model values : String} {color : Color α}
    (h : Color.ofModel? model values = .ok color) :
    p.defineModel name model values = p.define name color := by
  rw [defineModel, h]

end Palette

/-! ## One step -/

namespace Canvas

variable {o : Options α} {c c' : Canvas α} {k : Command}

/-- A command that leaves the palette and its scope alone leaves the canvas
alone. -/
theorem step_eq_self (hp : c.palette.learn k = c.palette)
    (hs : c.innermost.obey o c.palette k = c.innermost) : c.step o (.command k) = c := by
  rw [step_command, hp, hs]
  exact put_here c

theorem step_of_not_resolves (hk : k.builds = true) (h : ¬ k.Resolves o c) :
    c.step o (.command k) = c := by
  cases k with
  | shape command a =>
      have hnone : command.figures? c.innermost.context c.palette a = none :=
        eq_none_of_isSome_iff ShapeCommand.figures?_isSome_iff h
      refine step_eq_self rfl ?_
      rw [Scope.obey, hnone, Option.getD_none, Scope.emitAll_eq, List.foldl_nil]
  | includePicture params path =>
      have hnone : Scope.picture? o c.innermost.context params path = none :=
        eq_none_of_isSome_iff Scope.picture?_isSome_iff h
      refine step_eq_self rfl ?_
      rw [Scope.obey, hnone, Option.toList_none, Scope.emitAll_eq, List.foldl_nil]
  | path k =>
      have hnone : ∀ path, Scope.trace? c.innermost.context path k = none := fun _ =>
        eq_none_of_isSome_iff PathCommand.trace?_isSome_iff h
      refine step_eq_self rfl ?_
      simp only [Scope.obey, hnone, Option.getD_none, Option.map_id']
  | defineColor name model values => exact step_eq_self (Palette.defineModel_eq_self h) rfl
  | newColor kind name values => exact step_eq_self (Palette.defineModel_eq_self h) rfl
  | set | framedBox | useColor | textColor | text => cases hk

theorem step_of_resolves (hk : k.builds = true) (h : k.Resolves o c) :
    Does o c k (c.step o (.command k)) := by
  rw [step_command]
  cases k with
  | shape command a =>
      obtain ⟨fs, hfs⟩ := exists_of_isSome_iff ShapeCommand.figures?_isSome_iff h
      rw [Scope.obey, hfs, Option.getD_some, Scope.emitAll_eq]
      exact .shape hfs
  | includePicture params path =>
      obtain ⟨f, hf⟩ := exists_of_isSome_iff Scope.picture?_isSome_iff h
      rw [Scope.obey, hf, Option.toList_some, Scope.emitAll_eq]
      exact .picture hf
  | path k =>
      -- a path command resolves for every path or for none, so it is a function of the path
      have hgo : ∀ path, Scope.trace? c.innermost.context path k
          = some ((Scope.trace? c.innermost.context path k).getD path) := by
        intro path
        obtain ⟨q, hq⟩ := exists_of_isSome_iff PathCommand.trace?_isSome_iff h
        rw [hq, Option.getD_some]
      exact .path hgo
  | defineColor name model values =>
      obtain ⟨color, hc⟩ := h
      rw [Palette.learn, Palette.defineModel_eq_define hc, Scope.obey, put_innermost]
      exact .defineColor hc
  | newColor kind name values =>
      obtain ⟨color, hc⟩ := h
      rw [Palette.learn, Palette.defineModel_eq_define hc, Scope.obey, put_innermost]
      exact .newColor hc
  | set | framedBox | useColor | textColor | text => cases hk

/-- Drawing, going along a path and defining a colour change no context. -/
theorem Does.contexts (h : Does o c k c') :
    c'.scopes.map Scope.context = c.scopes.map Scope.context := by
  cases h with
  | shape => exact map_scopes_put Scope.context rfl
  | picture => exact map_scopes_put Scope.context rfl
  | path => exact map_scopes_put Scope.context rfl
  | defineColor => rfl
  | newColor => rfl

end Canvas

end PictureTree
