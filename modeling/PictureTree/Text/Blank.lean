/-
# `Text.Blank` — blanks, trimming and cutting text

Text is handled as a list of characters wherever it is taken apart.  A blank
is a character with the Unicode property `White_Space`; twenty-five characters
have it.  Everything that trims a value or cuts it into words goes by this one
property, so a no-break space is a blank here and a zero-width space is not.
-/

namespace PictureTree.Text

/-- The characters with the Unicode property `White_Space`. -/
def isBlank (c : Char) : Bool :=
  let n := c.val
  (9 ≤ n && n ≤ 13) || n == 32 || n == 0x85 || n == 0xA0 || n == 0x1680 ||
  (0x2000 ≤ n && n ≤ 0x200A) || n == 0x2028 || n == 0x2029 || n == 0x202F ||
  n == 0x205F || n == 0x3000

/-- The text from its first character that fails `p` on. -/
def trimStart (p : Char → Bool) (s : List Char) : List Char := s.dropWhile p

/-- The text up to its last character that fails `p`. -/
def trimEnd (p : Char → Bool) (s : List Char) : List Char := (s.reverse.dropWhile p).reverse

/-- The text without the characters of `p` at its two ends. -/
def trimBy (p : Char → Bool) (s : List Char) : List Char := trimEnd p (trimStart p s)

/-- The text without the blanks at its two ends. -/
def trim (s : List Char) : List Char := trimBy isBlank s

/-- The pieces between the characters of `p`, empty ones included: one more
piece than there are such characters. -/
def pieces (p : Char → Bool) : List Char → List (List Char)
  | [] => [[]]
  | c :: s =>
    if p c then [] :: pieces p s
    else match pieces p s with
      | [] => [[c]]
      | first :: more => (c :: first) :: more

/-- The non-empty pieces between blanks. -/
def words (s : List Char) : List (List Char) :=
  (pieces isBlank s).filter fun piece => !piece.isEmpty

/-- The rest of `s` behind `start`, if `s` starts with it. -/
def after? : (start : List Char) → (s : List Char) → Option (List Char)
  | [], s => some s
  | _ :: _, [] => none
  | c :: start, d :: s => if c = d then after? start s else none

/-- The text between an opening brace at its start and a closing brace at its
end; any other text as it is. -/
def unbrace : List Char → List Char
  | '{' :: s =>
    match s.reverse with
    | '}' :: inner => inner.reverse
    | _ => '{' :: s
  | s => s

/-- The trimmed text as a string. -/
def trimmed (s : List Char) : String := String.ofList (trim s)

theorem pieces_ne_nil (p : Char → Bool) (s : List Char) : pieces p s ≠ [] := by
  induction s with
  | nil => simp [pieces]
  | cons c s ih =>
    simp only [pieces]
    split
    · simp
    · split <;> simp

theorem after?_eq_some {start s rest : List Char} :
    after? start s = some rest ↔ s = start ++ rest := by
  induction start generalizing s with
  | nil => simp [after?, eq_comm]
  | cons c start ih =>
    cases s with
    | nil => simp [after?]
    | cons d s =>
      by_cases h : c = d
      · simp [after?, h, ih]
      · simp [after?, h, Ne.symm h]

end PictureTree.Text
