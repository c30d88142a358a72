/-
# `Canvas` — drawing a document

A canvas has the scope of the document and the scopes that are open inside it.
Events act on the innermost scope: a scope begins, a command is obeyed, a scope
ends and leaves its group to the scope around it.  The palette alone belongs to
the whole canvas.

An event that ends a scope acts on the innermost open one, whatever its kind,
and on none if only the document is open.
-/
import PictureTree.Canvas.Scope

open scoped PictureTree.Scalar

namespace PictureTree

/-- The palette after a command: definitions change it, and nothing else. -/
def Palette.learn {α : Type} [Scalar α] (p : Palette α) : Command → Palette α
  | .defineColor name model values => p.defineModel name model values
  | .newColor kind name values => p.defineModel name kind.model values
  | _ => p

/-- A document while it is drawn; the innermost open scope comes first. -/
structure Canvas (α : Type) where
  palette : Palette α
  root : Scope α
  opened : List (Scope α)

namespace Canvas

variable {α : Type} [Scalar α]

/-- An empty canvas. -/
def blank (o : Options α) (palette : Palette α) : Canvas α :=
  ⟨palette, .ofContext (.initial o.ppc), []⟩

/-- The number of open scopes inside the document. -/
def depth (c : Canvas α) : Nat := c.opened.length

/-- The innermost scope. -/
def innermost (c : Canvas α) : Scope α := c.opened.head?.getD c.root

/-- The canvas with its innermost scope changed. -/
def change (c : Canvas α) (f : Scope α → Scope α) : Canvas α :=
  match c.opened with
  | [] => { c with root := f c.root }
  | s :: outer => { c with opened := f s :: outer }

/-- The canvas with its innermost scope ended. -/
def close (o : Options α) (c : Canvas α) : Canvas α :=
  match c.opened with
  | [] => c
  | s :: outer => { c with opened := outer }.change fun around => around.emit o s.leave

/-- The canvas after an event. -/
def step (o : Options α) (c : Canvas α) : Event → Canvas α
  | .enter head => { c with opened := .begin c.palette c.innermost.context head :: c.opened }
  | .exit .custom => (c.change (Scope.flush o)).close o
  | .exit _ => c.close o
  | .command command =>
    { c.change fun s => s.obey o c.palette command with palette := c.palette.learn command }

/-- The canvas after some events. -/
def run (o : Options α) (c : Canvas α) (events : List Event) : Canvas α :=
  events.foldl (step o) c

/-- The canvas with the given number of scopes ended. -/
def closeTimes (o : Options α) (c : Canvas α) : Nat → Canvas α
  | 0 => c
  | n + 1 => closeTimes o (c.close o) n

/-- The canvas with every open scope ended, the innermost first. -/
def closeAll (o : Options α) (c : Canvas α) : Canvas α := c.closeTimes o c.depth

/-- The shapes of the document; scopes that are still open end here. -/
def finish (o : Options α) (c : Canvas α) : List (Shape α) :=
  Grouping.flatten (c.closeAll o).root.shapes

/-- The canvas after some items. -/
def drawItems (o : Options α) (palette : Palette α) (items : List Item) : Canvas α :=
  (blank o palette).run o (Item.eventsOfAll items)

end Canvas

/-- The shapes of a source and the palette after it; nothing if the grammar
does not match the source. -/
def importSource? {α : Type} [Scalar α] (o : Options α) (palette : Palette α) (source : String) :
    Option (List (Shape α) × Palette α) :=
  (Item.ofSource? source).map fun items =>
    let canvas := Canvas.drawItems o palette items
    (canvas.finish o, canvas.palette)

end PictureTree
