/-
# `Raster.Bmp` — sizes of BMP pictures

A file header of fourteen bytes comes before the header of the picture, which
exists in six lengths.  The shortest has words for the size, the others signed
longs, of which a negative height turns the rows around.  The other fields say
how colours are written; the file counts as a picture if they agree with each
other and the palette or the masks that they call for are there.
-/
import PictureTree.Raster.Bytes

namespace PictureTree.Raster.Bmp

/-- Where the colours of the pixels come from: a palette, the pixels themselves,
or bits of the pixels that masks pick out. -/
inductive Colors where
  | palette | direct | masked
deriving DecidableEq, Repr

/-- The colours for a number of bits a pixel in the shortest header. -/
def shortColors? : (bits : Nat) → Option Colors
  | 1 | 4 | 8 => some .palette
  | 24 => some .direct
  | _ => none

/-- The colours for a way of compression and a number of bits a pixel. -/
def colors? : (compression bits : Nat) → Option Colors
  | 0, 1 | 0, 2 | 0, 4 | 0, 8 | 1, 8 | 2, 4 => some .palette
  | 0, 16 | 0, 24 | 0, 32 => some .direct
  | 3, 16 | 3, 32 => some .masked
  | _, _ => none

/-- Whether the ones of a mask stand together among the bits of a pixel: such a
number is a power of two less another one. -/
def isMask (bits mask : Nat) : Bool :=
  (List.range (bits + 1)).any fun high => (List.range (high + 1)).any fun low =>
    mask = Nat.pow 2 high - Nat.pow 2 low

/-- Whether the masks behind the first forty bytes of the header are in order:
those of red, green and blue not empty, and one for the opacity in the headers
that have room for it. -/
def hasMasks (bs : List UInt8) (headerSize bits : Nat) : Bool :=
  let good (mask : Option Nat) : Bool := mask.any (isMask bits)
  let color (offset : Nat) : Bool := let mask := long? bs offset; good mask && mask ≠ some 0
  color 54 && color 58 && color 62 && (headerSize < 56 || good (long? bs 66))

/-- Whether a palette of `used` colours, or as many as there can be if that is
zero, follows the header. -/
def hasPalette (bs : List UInt8) (headerSize entrySize bits used : Nat) : Bool :=
  let entries := if used = 0 then Nat.pow 2 bits else used
  used ≤ Nat.pow 2 bits && (field? bs (14 + headerSize) (entrySize * min entries 256)).isSome

/-- The size in the shortest header. -/
def shortSize? (bs : List UInt8) : Option (Nat × Nat) := do
  let size ← area? (← word? bs 18) (← word? bs 20)
  let planes ← word? bs 22
  let bits ← word? bs 24
  let colors ← shortColors? bits
  if planes = 1 && (colors = .direct || hasPalette bs 12 3 bits 0) then return size else none

/-- The size that two longs write: a width up to 65535, and a height up to as
much, or any negative height but the least. -/
def signedSize? (width height : Nat) : Option (Nat × Nat) :=
  if width > 0xFFFF then none
  else if height ≤ 0xFFFF then area? width height
  else if height > 0x80000000 then area? width (0x100000000 - height)
  else none

/-- The size in a longer header.  Rows that are turned around cannot be packed. -/
def longSize? (bs : List UInt8) (headerSize : Nat) : Option (Nat × Nat) := do
  let height ← long? bs 22
  let size ← signedSize? (← long? bs 18) height
  let planes ← word? bs 26
  let bits ← word? bs 28
  let compression ← long? bs 30
  let used ← long? bs 46
  let _ ← long? bs 50
  let colors ← colors? compression bits
  let isPacked := compression = 1 || compression = 2
  let isComplete := match colors with
    | .palette => hasPalette bs headerSize 4 bits used
    | .masked => hasMasks bs headerSize bits
    | .direct => true
  if planes = 1 && !(isPacked && height > 0xFFFF) && isComplete then return size else none

/-- The size of the picture in a file. -/
def size? (bs : List UInt8) : Option (Nat × Nat) := do
  let headerSize ← long? bs 14
  if bs.take 2 ≠ [0x42, 0x4D] then none
  else if headerSize = 12 then shortSize? bs
  else if [40, 52, 56, 108, 124].contains headerSize then longSize? bs headerSize
  else none

end PictureTree.Raster.Bmp
