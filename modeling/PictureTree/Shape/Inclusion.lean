/-
# `Shape.Inclusion` — included pictures

A picture file has a size in pixels.  Parameters change its width or height,
and the other measure with it, so that the proportions stay.
-/
import PictureTree.Shape.Construction
import PictureTree.Shape.Figure

open scoped PictureTree.Scalar

namespace PictureTree

variable {α : Type} [Scalar α]

/-- The size of an included picture and its rotation. -/
structure Inclusion (α : Type) where
  width : α
  height : α
  rotation : α

namespace Inclusion

/-- A picture at its own size. -/
def ofSize (width height : Nat) : Inclusion α := ⟨Scalar.ofNat width, Scalar.ofNat height, 0⟩

/-- How many times as wide as high a picture is. -/
def ratio (width height : Nat) : α :=
  Scalar.ofNat width / Scalar.max (Scalar.ofNat height) 1

/-- The picture with a parameter set; one that cannot be used changes nothing. -/
def set (units : Units α) (ratio : α) (i : Inclusion α) (p : Param) : Inclusion α :=
  match p.key, Quantity.ofChars? p.value.toList with
  | "width", some q =>
    let w : α := Scalar.abs (units.length q)
    { i with width := w, height := w / ratio }
  | "height", some q =>
    let h : α := Scalar.abs (units.length q)
    { i with height := h, width := h * ratio }
  | "scale", some q =>
    let s : α := Scalar.abs q.value
    { i with width := i.width * s, height := i.height * s }
  | "angle", some q => { i with rotation := Scalar.rotation q.value }
  | _, _ => i

/-- The figure of a picture file of the given size, if its measures are finite. -/
def figure? (units : Units α) (ps : List Param) (path : String) (size : Nat × Nat) :
    Option (Figure α) := do
  let r : α := ratio size.1 size.2
  let i := ps.foldl (set units r) (ofSize size.1 size.2)
  let w ← Context.checked? i.width
  let h ← Context.checked? i.height
  return .ofOutline (.picture .origin path w h) i.rotation

end Inclusion

end PictureTree
