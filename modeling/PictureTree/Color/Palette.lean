/-
# `Color.Palette` — named colours

A palette starts with the predefined names and grows by definitions, of which
the latest one for a name counts.  Scopes do not undo definitions.

`Palette.resolve` reads a colour name with mixes: `red!30` is thirty percent
of red in white, `red!30!blue` thirty percent of red in blue, and each further
pair mixes the result so far with the next colour.
-/
import PictureTree.Color

open scoped PictureTree.Scalar

namespace PictureTree

/-- Names with their colours, the latest definition first. -/
structure Palette (α : Type) where
  named : List (String × Color α)

namespace Palette

variable {α : Type} [Scalar α]

/-- The names that need no definition. -/
def predefined : Palette α where
  named := [
    ("black", .black), ("white", .white), ("red", .rgb 1 0 0), ("green", .rgb 0 1 0),
    ("blue", .rgb 0 0 1), ("cyan", .rgb 0 1 1), ("magenta", .rgb 1 0 1), ("yellow", .rgb 1 1 0),
    ("gray", .gray 0.5), ("lightgray", .gray 0.75), ("darkgray", .gray 0.25)]

/-- The colour of a name. -/
def lookup? (p : Palette α) (name : String) : Option (Color α) := p.named.lookup name

/-- The palette with a name defined. -/
def define (p : Palette α) (name : String) (c : Color α) : Palette α :=
  ⟨(name, c) :: p.named⟩

/-- The palette with a name defined as the colour of a model's values; as it
was, if they describe none. -/
def defineModel (p : Palette α) (name model values : String) : Palette α :=
  match Color.ofModel? model values with
  | .ok c => p.define name c
  | .error _ => p

/-- The colour of a name with blanks around it. -/
def find (p : Palette α) (name : List Char) : Except ResolveError (Color α) :=
  let name := Text.trimmed name
  match p.lookup? name with
  | some c => .ok c
  | none => .error (.unknownColor name)

/-- The colour `c` mixed by the rest of a name: percentages, each with the
colour that the remainder is taken from; white, if none follows. -/
def mixes (p : Palette α) (whole : String) (c : Color α) :
    List (List Char) → Except ResolveError (Color α)
  | [] => .ok c
  | [percent] => do
    let n ← percentage percent
    return c.mix .white (n / 100)
  | percent :: other :: more => do
    let n ← percentage percent
    let d ← p.find other
    mixes p whole (c.mix d (n / 100)) more
where
  /-- A percentage; if it is not a number, no colour has the whole name. -/
  percentage (s : List Char) : Except ResolveError α :=
    match Numeral.ofChars? (Text.trim s) with
    | some n => .ok (Scalar.ofNumeral n)
    | none => .error (.unknownColor whole)

/-- The colour that a name stands for. -/
def resolve (p : Palette α) (name : String) : Except ResolveError (Color α) :=
  let name := Text.trim name.toList
  match Text.pieces (· == '!') name with
  | [] => p.find []
  | base :: rest => do
    let c ← p.find base
    p.mixes (String.ofList name) c rest

omit [Scalar α] in
@[simp] theorem lookup?_define_self (p : Palette α) (name : String) (c : Color α) :
    (p.define name c).lookup? name = some c := by
  simp [lookup?, define]

omit [Scalar α] in
theorem lookup?_define_of_ne (p : Palette α) {name other : String} (c : Color α)
    (h : other ≠ name) : (p.define name c).lookup? other = p.lookup? other := by
  have h' : (other == name) = false := by simpa using h
  simp [lookup?, define, List.lookup_cons, h']

end Palette

end PictureTree
