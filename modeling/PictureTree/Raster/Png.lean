/-
# `Raster.Png` — sizes of PNG pictures

A file is a signature and chunks.  A chunk has a length, a kind of four
letters, its content and a checksum over kind and content.  The first chunk is
the header and holds the size; the file counts as a picture once its first
chunk of picture data begins and everything before that is in order.
-/
import PictureTree.Raster.Bytes

namespace PictureTree.Raster.Png

/-- A chunk, with as much of its content and checksum as the file has. -/
structure Chunk where
  kind : List UInt8
  length : Nat
  body : List UInt8

namespace Chunk

/-- The bytes between the kind and the checksum. -/
def content (c : Chunk) : List UInt8 := c.body.take c.length

/-- Whether the chunk is all there. -/
def isWhole (c : Chunk) : Bool := c.body.length = c.length + 4

/-- Whether the chunk is all there and has the checksum that it should have. -/
def isSound (c : Chunk) : Bool :=
  c.isWhole && checksum (c.kind ++ c.content) = big (c.body.drop c.length)

/-- Whether a reader may leave the chunk out: its kind starts with a small letter. -/
def isAncillary (c : Chunk) : Bool := c.kind.head?.any fun letter => letter &&& 0x20 ≠ 0

end Chunk

/-- The bytes that every file starts with. -/
def signature : List UInt8 := [0x89, 0x50, 0x4E, 0x47, 0x0D, 0x0A, 0x1A, 0x0A]

/-- The kind of the header, `IHDR`. -/
def headerKind : List UInt8 := [0x49, 0x48, 0x44, 0x52]

/-- The kind of the palette, `PLTE`. -/
def paletteKind : List UInt8 := [0x50, 0x4C, 0x54, 0x45]

/-- The kind of the picture data, `IDAT`. -/
def dataKind : List UInt8 := [0x49, 0x44, 0x41, 0x54]

/-- The kind of the data of later pictures in an animation, `fdAT`. -/
def frameDataKind : List UInt8 := [0x66, 0x64, 0x41, 0x54]

/-- The chunks behind the signature. -/
def chunks : List UInt8 → List Chunk
  | l₃ :: l₂ :: l₁ :: l₀ :: k₀ :: k₁ :: k₂ :: k₃ :: bs =>
    let length := big [l₃, l₂, l₁, l₀]
    ⟨[k₀, k₁, k₂, k₃], length, bs.take (length + 4)⟩ :: chunks (bs.drop (length + 4))
  | _ => []
termination_by bs => bs.length
decreasing_by simp only [List.length_drop, List.length_cons]; omega

/-- Whether samples of a colour type may have a depth in bits. -/
def isDepth (colorType depth : UInt8) : Bool :=
  match colorType.toNat with
  | 0 => [1, 2, 4, 8, 16].contains depth
  | 2 | 4 | 6 => [8, 16].contains depth
  | 3 => [1, 2, 4, 8].contains depth
  | _ => false

/-- The size in the content of the header. -/
def headerSize? (content : List UInt8) : Option (Nat × Nat) :=
  match content.drop 8 with
  | depth :: colorType :: compression :: filter :: interlace :: _ =>
    if isDepth colorType depth && compression = 0 && filter = 0 && interlace ≤ 1 then
      area? (big (content.take 4)) (big ((content.drop 4).take 4))
    else none
  | _ => none

/-- Whether the chunks behind the header lead to picture data: on the way there
may be one palette, which must be sound, and ancillary chunks, which must be
whole. -/
def reachesData : (hasPalette : Bool) → List Chunk → Bool
  | _, [] => false
  | hasPalette, c :: cs =>
    if c.kind = dataKind then true
    else if c.kind = paletteKind then !hasPalette && c.isSound && reachesData true cs
    else c.isAncillary && c.kind ≠ frameDataKind && c.isWhole && reachesData hasPalette cs

/-- The size of the picture in a file. -/
def size? (bs : List UInt8) : Option (Nat × Nat) :=
  if bs.take 8 ≠ signature then none
  else match chunks (bs.drop 8) with
    | header :: cs =>
      if header.kind = headerKind && header.isSound && reachesData false cs then
        headerSize? header.content
      else none
    | [] => none

end PictureTree.Raster.Png
