/-
# `Raster.Gif` — sizes of GIF pictures

A file starts with a signature and the screen: its size, some flags and, if
they say so, a colour table.  Blocks follow.  The file counts as a picture once
a block that is not an extension begins, and a block begins when one more byte
follows its first one.
-/
import PictureTree.Raster.Bytes

namespace PictureTree.Raster.Gif

/-- The signatures of the two versions, `GIF87a` and `GIF89a`. -/
def signatures : List (List UInt8) :=
  [[0x47, 0x49, 0x46, 0x38, 0x37, 0x61], [0x47, 0x49, 0x46, 0x38, 0x39, 0x61]]

/-- The number of bytes in the colour table that the flags of the screen announce. -/
def tableSize (flags : Nat) : Nat := if flags < 128 then 0 else 3 * Nat.pow 2 (flags % 8 + 1)

/-- Cuts off the data of an extension, which come in pieces: each has its length
before it, and a length of zero behind a piece ends them.  `left` bytes are left
of the current piece.  The result is the number of data bytes and what follows. -/
def pieces? : (left : Nat) → List UInt8 → Option (Nat × List UInt8)
  | _, [] => none
  | left + 1, _ :: bs => (pieces? left bs).map fun (n, rest) => (n + 1, rest)
  | 0, b :: bs => if b = 0 then some (0, bs) else pieces? b.toNat bs

/-- What follows the data of an extension is shorter than the extension. -/
theorem pieces?_length_lt {left n : Nat} {bs rest : List UInt8}
    (h : pieces? left bs = some (n, rest)) : rest.length < bs.length := by
  fun_induction pieces? left bs generalizing n with
  | case1 => simp at h
  | case2 left b bs ih =>
    obtain ⟨⟨m, r⟩, hm, hr⟩ := Option.map_eq_some_iff.1 h
    have := ih (hm.trans (by rw [(Prod.mk.inj hr).2]))
    simp only [List.length_cons]; omega
  | case3 bs => simp_all
  | case4 b bs _ ih => have := ih h; simp only [List.length_cons]; omega

/-- Whether an extension of this kind may have this many data bytes: plain text,
graphic control (four bytes), comment and application. -/
def isExtension (kind : UInt8) (length : Nat) : Bool :=
  kind = 0x01 || kind = 0xFE || kind = 0xFF || (kind = 0xF9 && length = 4)

/-- Whether only extensions come before the first other block.  Behind an
extension the byte that closes the file is enough for a block. -/
def reachesBlock (behindExtension : Bool) : List UInt8 → Bool
  | [] => false
  | [b] => behindExtension && b = 0x3B
  | 0x21 :: _ :: [] => false
  | 0x21 :: kind :: first :: bs =>
    match _h : pieces? first.toNat bs with
    | some (length, rest) => isExtension kind length && reachesBlock true rest
    | none => false
  | _ :: _ :: _ => true
termination_by bs => bs.length
decreasing_by have := pieces?_length_lt _h; simp only [List.length_cons]; omega

/-- The size of the screen in a file, which may be empty. -/
def size? (bs : List UInt8) : Option (Nat × Nat) := do
  let table := tableSize (← bs[10]?).toNat
  if signatures.contains (bs.take 6) && reachesBlock false (bs.drop (13 + table)) then
    return (← word? bs 6, ← word? bs 8)
  else none

end PictureTree.Raster.Gif
