/-
# `Raster.Bytes` — numbers in files, and their checksum

The bytes of a file are a list.  A number fills two bytes (a word) or four (a
long); formats differ in whether its lowest or its highest byte comes first.
-/

namespace PictureTree.Raster

/-- The number that some bytes write, the lowest first. -/
def little (bs : List UInt8) : Nat := bs.foldr (fun b n => 256 * n + b.toNat) 0

/-- The number that some bytes write, the highest first. -/
def big (bs : List UInt8) : Nat := bs.foldl (fun n b => 256 * n + b.toNat) 0

/-- The given number of bytes at an offset, if there are as many. -/
def field? (bs : List UInt8) (offset size : Nat) : Option (List UInt8) :=
  let f := (bs.drop offset).take size
  if f.length = size then some f else none

/-- The word at an offset, its lowest byte first. -/
def word? (bs : List UInt8) (offset : Nat) : Option Nat := (field? bs offset 2).map little

/-- The long at an offset, its lowest byte first. -/
def long? (bs : List UInt8) (offset : Nat) : Option Nat := (field? bs offset 4).map little

/-- A width and a height that are both above zero. -/
def area? (width height : Nat) : Option (Nat × Nat) :=
  if width = 0 || height = 0 then none else some (width, height)

/-- One step of the division behind `checksum`: the remainder moves down by a
bit, and the divisor is taken off it when that bit was set. -/
def divisionStep (c : UInt32) : UInt32 :=
  if c &&& 1 = 1 then (c >>> 1) ^^^ 0xEDB88320 else c >>> 1

/-- The cyclic redundancy check of 32 bits: the remainder that eight steps for
every byte leave of an all-ones start, inverted. -/
def checksum (bs : List UInt8) : Nat :=
  let remainder := bs.foldl (fun c b => Nat.repeat divisionStep 8 (c ^^^ b.toUInt32)) 0xFFFFFFFF
  (remainder ^^^ 0xFFFFFFFF).toNat

end PictureTree.Raster
