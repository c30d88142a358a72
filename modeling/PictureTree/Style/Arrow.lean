/-
# `Style.Arrow` — line ends

A specification such as `<->` or `|*-o` names both ends of a line and is cut
at its first hyphen.  Pointing glyphs are turned around on the right end, so `>` on
the right is what `<` is on the left; all other glyphs read alike on both.
-/
import PictureTree.Text.Blank

namespace PictureTree

/-- What a line ends in. -/
inductive ArrowStyle where
  | none
  | arrow | reversedArrow
  | doubleArrow | reversedDoubleArrow
  | barEnd | barIn
  | squareBracket | reversedSquareBracket
  | roundBracket | reversedRoundBracket
  | circleEnd | circleIn
  | diskEnd | diskIn
  | roundEnd | roundIn
  | squareEnd
deriving DecidableEq, Repr

/-- The two ends of a line. -/
inductive Side where
  | left
  | right
deriving DecidableEq, Repr

namespace ArrowStyle

/-- The character that points the other way. -/
def flipChar : Char → Char
  | '<' => '>'
  | '>' => '<'
  | '[' => ']'
  | ']' => '['
  | '(' => ')'
  | ')' => '('
  | c => c

/-- A glyph as it is written on the other end of a line. -/
def flip (s : List Char) : List Char := s.reverse.map flipChar

/-- The style of a pointing glyph, as it is written on the left end. -/
def ofPointing? : List Char → Option ArrowStyle
  | ['<'] => some .arrow
  | ['>'] => some .reversedArrow
  | ['<', '<'] => some .doubleArrow
  | ['>', '>'] => some .reversedDoubleArrow
  | ['['] => some .squareBracket
  | [']'] => some .reversedSquareBracket
  | ['('] => some .roundBracket
  | [')'] => some .reversedRoundBracket
  | _ => Option.none

/-- The style of a glyph that points nowhere, the same on both ends. -/
def ofPlain? : List Char → Option ArrowStyle
  | [] => some .none
  | ['|'] => some .barEnd
  | ['|', '*'] => some .barIn
  | ['o'] => some .circleEnd
  | ['o', 'o'] => some .circleIn
  | ['*'] => some .diskEnd
  | ['*', '*'] => some .diskIn
  | ['c'] => some .roundEnd
  | ['c', 'c'] => some .roundIn
  | ['C'] => some .squareEnd
  | _ => Option.none

/-- The style that a glyph names on one end. -/
def ofGlyph? (side : Side) (glyph : List Char) : Option ArrowStyle :=
  let pointing := match side with
    | .left => glyph
    | .right => flip glyph
  ofPointing? pointing <|> ofPlain? glyph

/-- The two ends that a specification names. -/
def ofSpec? (spec : List Char) : Option (ArrowStyle × ArrowStyle) :=
  let s := Text.trim spec
  match s.dropWhile (· ≠ '-') with
  | [] => Option.none
  | _ :: right => do
    let l ← ofGlyph? .left (s.takeWhile (· ≠ '-'))
    let r ← ofGlyph? .right right
    return (l, r)

end ArrowStyle

end PictureTree
