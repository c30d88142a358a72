/-
# `Raster.Jpeg` — sizes of JPEG pictures

Behind the start marker a file is a row of segments, each with a marker, a
length and its content.  A frame holds the size and names the components of the
picture, a scan begins the data of some of them.  The file counts as a picture
once a scan begins that fits the one frame before it, and the segments up to
there are in order.
-/
import PictureTree.Raster.Bytes

namespace PictureTree.Raster.Jpeg

/-- A marker and what its segment holds behind the length. -/
structure Segment where
  marker : UInt8
  content : List UInt8

/-- A frame: the size of the picture and the names of its components. -/
structure Frame where
  width : Nat
  height : Nat
  components : List UInt8

/-- The first marker and what follows it: a byte other than `00` and `FF` that
stands behind `FF`.  Bytes before it do not count. -/
def marker? : List UInt8 → Option (UInt8 × List UInt8)
  | 0xFF :: m :: bs => if m = 0xFF || m = 0x00 then marker? (m :: bs) else some (m, bs)
  | _ :: bs => marker? bs
  | [] => none

/-- What follows a marker is shorter than what it was found in. -/
theorem marker?_length_lt {m : UInt8} {bs rest : List UInt8}
    (h : marker? bs = some (m, rest)) : rest.length < bs.length := by
  fun_induction marker? bs with
  | case1 b bs hb ih => have := ih h; simp only [List.length_cons] at *; omega
  | case2 b bs hb => cases h; simp only [List.length_cons]; omega
  | case3 b bs hb ih => have := ih h; simp only [List.length_cons]; omega
  | case4 => simp at h

/-- The segments of a file up to the first that is not whole.  A length counts
its own two bytes. -/
def segments (bs : List UInt8) : List Segment :=
  match h : marker? bs with
  | some (marker, high :: low :: rest) =>
    let length := big [high, low]
    if length < 2 || rest.length < length - 2 then []
    else ⟨marker, rest.take (length - 2)⟩ :: segments (rest.drop (length - 2))
  | _ => []
termination_by bs.length
decreasing_by
  have := marker?_length_lt h
  simp only [List.length_drop, List.length_cons] at *
  omega

/-- The component that three bytes describe, by its name: the sampling factors
are powers of two, and there are four quantization tables. -/
def component? (name sampling table : UInt8) : Option UInt8 :=
  let isFactor (n : UInt8) : Bool := [1, 2, 4, 8].contains n
  if isFactor (sampling >>> 4) && isFactor (sampling &&& 15) && table < 4 then some name else none

/-- The components that some bytes describe, three bytes each. -/
def components? : List UInt8 → Option (List UInt8)
  | [] => some []
  | name :: sampling :: table :: bs => do
    return (← component? name sampling table) :: (← components? bs)
  | _ => none

/-- The frame of a segment: samples of eight bits, a size, and one to four components. -/
def frame? : (content : List UInt8) → Option Frame
  | 8 :: h₁ :: h₀ :: w₁ :: w₀ :: count :: bs => do
    let (width, height) ← area? (big [w₁, w₀]) (big [h₁, h₀])
    let names ← components? bs
    if names.length = count.toNat && 1 ≤ names.length && names.length ≤ 4 then
      return ⟨width, height, names⟩
    else none
  | _ => none

/-- Whether the numbers of codes of the lengths one, two, … fit a prefix code in
which no code is all ones.  `code` is the first code of the length before. -/
def isCode (length code : Nat) : (counts : List UInt8) → Bool
  | [] => true
  | n :: counts =>
    let next := 2 * code + n.toNat
    next < 2 ^ length && isCode (length + 1) next counts

/-- Whether a segment holds Huffman tables and nothing else: each has a byte for
its class and place, sixteen numbers of codes, and the symbols of the codes,
which in the first class are below sixteen. -/
def isHuffman : (content : List UInt8) → Bool
  | [] => true
  | place :: bs =>
    let counts := bs.take 16
    let total := counts.foldl (fun n count => n + count.toNat) 0
    let symbols := (bs.drop 16).take total
    let isDirect := place < 16
    if counts.length = 16 && symbols.length = total && total ≤ 256 && place < 32 &&
        place &&& 15 < 4 && isCode 1 0 counts && (!isDirect || symbols.all (· < 16)) then
      isHuffman ((bs.drop 16).drop total)
    else false
termination_by content => content.length
decreasing_by simp only [List.length_drop, List.length_cons]; omega

/-- Whether a segment holds quantization tables and nothing else: each has a byte
for its precision and place, and sixty-four numbers of one or two bytes. -/
def isQuantization : (content : List UInt8) → Bool
  | [] => true
  | place :: bs =>
    let length := if place < 16 then 64 else 128
    if length ≤ bs.length && place < 32 && place &&& 15 < 4 then isQuantization (bs.drop length)
    else false
termination_by content => content.length
decreasing_by simp only [List.length_drop, List.length_cons]; omega

/-- Whether a segment for applications is long enough for the colour transform,
and the transform is known where the segment has one. -/
def isTransform (content : List UInt8) : Bool :=
  12 ≤ content.length &&
  (content.take 5 ≠ [0x41, 0x64, 0x6F, 0x62, 0x65] || content[11]?.any (· ≤ 2))

/-- The names that begin the pairs of bytes in front of the last three bytes, and
the last three bytes. -/
def scanNames? : List UInt8 → Option (List UInt8 × UInt8 × UInt8 × UInt8)
  | [first, last, steps] => some ([], first, last, steps)
  | name :: _ :: bs => (scanNames? bs).map fun (names, limits) => (name :: names, limits)
  | _ => none

/-- Whether a segment begins a scan of a frame: it names one to four components,
each of the frame and none twice, and the limits of its steps are in range. -/
def Frame.isScan (f : Frame) : (content : List UInt8) → Bool
  | [] => false
  | count :: bs =>
    match scanNames? bs with
    | some (names, first, last, steps) =>
      names.length = count.toNat && 1 ≤ names.length && names.length ≤ 4 &&
      names.all f.components.contains && names.eraseDups.length = names.length &&
      first ≤ 63 && last ≤ 63 && steps >>> 4 ≤ 13 && steps &&& 15 ≤ 13
    | none => false

/-- The size of the frame when the first scan begins.  The end of the picture, a
number of lines and arithmetic coding may not come before it. -/
def sizeOf? : Option Frame → List Segment → Option (Nat × Nat)
  | _, [] => none
  | frame, ⟨marker, content⟩ :: ss =>
    match marker with
    | 0xC0 | 0xC1 | 0xC2 =>
      if frame.isSome then none
      else match frame? content with
        | some f => sizeOf? (some f) ss
        | none => none
    | 0xDA => (frame.filter fun f => f.isScan content).map fun f => (f.width, f.height)
    | 0xD9 | 0xDC | 0xCC => none
    | 0xC4 => if isHuffman content then sizeOf? frame ss else none
    | 0xDB => if isQuantization content then sizeOf? frame ss else none
    | 0xDD => if content.length = 2 then sizeOf? frame ss else none
    | 0xEE => if isTransform content then sizeOf? frame ss else none
    | _ => sizeOf? frame ss

/-- The size of the picture in a file. -/
def size? : List UInt8 → Option (Nat × Nat)
  | 0xFF :: 0xD8 :: bs => sizeOf? none (segments bs)
  | _ => none

end PictureTree.Raster.Jpeg
