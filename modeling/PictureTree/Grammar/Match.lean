/-
# `Grammar.Match` — what a parsing expression matches

`Expr.run` is the meaning of expressions, given the meaning of rules, and
`Grammar.apply` ties the knot: a rule matches what its expression matches,
wrapped in a node.  Rules are entered to a bounded depth; `Grammar.start?`
computes a depth that suffices from the length of the text.

In a phrase, blanks and comments are skipped between the parts of a sequence
and between repetitions.  A gap in front of an optional part is taken even if
the part is missing; a gap in front of a repetition that does not come is not.
-/
import PictureTree.Grammar.Expr
import PictureTree.Text.Blank

namespace PictureTree

/-- What a rule matched: the text, and the nodes of the rules inside it. -/
inductive Node (ρ : Type) where
  | mk (rule : ρ) (text : List Char) (parts : List (Node ρ))
deriving Repr

/-- A match at the start of a text: what it takes, what it leaves, and the
nodes of the rules it went through. -/
structure Match (ρ : Type) where
  taken : List Char
  rest : List Char
  nodes : List (Node ρ)
deriving Repr

namespace Match

variable {ρ : Type}

/-- The match that takes nothing. -/
def nothing (s : List Char) : Match ρ := ⟨[], s, []⟩

/-- A match followed by a match of what it leaves. -/
def append (m n : Match ρ) : Match ρ := ⟨m.taken ++ n.taken, n.rest, m.nodes ++ n.nodes⟩

instance : Append (Match ρ) := ⟨append⟩

/-- The match as that of a rule. -/
def wrap (kind : RuleKind) (r : ρ) (m : Match ρ) : Match ρ :=
  let parts := match kind with
    | .token => []
    | .phrase | .compound => m.nodes
  { m with nodes := [.mk r m.taken parts] }

end Match

/-- The blanks between words of the notation. -/
def isSpace (c : Char) : Bool := c == ' ' || c == '\t' || c == '\r' || c == '\n'

/-- The blanks and comments at the start, and the rest.  A comment runs from a
percent sign to the end of the line; `inComment` says that one has begun. -/
def splitTrivia (inComment : Bool) : List Char → List Char × List Char
  | [] => ([], [])
  | c :: s =>
    let here :=
      if inComment then some (!(c == '\r' || c == '\n'))
      else if isSpace c then some false
      else if c == '%' then some true
      else none
    match here with
    | none => ([], c :: s)
    | some still =>
      let (taken, rest) := splitTrivia still s
      (c :: taken, rest)

/-- What may be skipped between two parts. -/
def gap {ρ : Type} : Spacing → List Char → Match ρ
  | .tight, s => .nothing s
  | .loose, s =>
    let (taken, rest) := splitTrivia false s
    ⟨taken, rest, []⟩

/-- As many repetitions of `step` as there are, each behind a gap, but no more
than `bound`. -/
def repeated {ρ : Type} (step : List Char → Option (Match ρ)) (sp : Spacing) :
    Nat → List Char → Match ρ
  | 0, s => .nothing s
  | bound + 1, s =>
    let g := gap sp s
    match step g.rest with
    | none => .nothing s
    | some m => g ++ (m ++ repeated step sp bound m.rest)

namespace Expr

variable {ρ : Type}

/-- The match of an expression at the start of a text, where `call` is the
match of a rule.  Every repetition takes a character, so the length of the
text bounds their number. -/
def run (call : ρ → List Char → Option (Match ρ)) (sp : Spacing) :
    Expr ρ → List Char → Option (Match ρ)
  | .lit t, s => (Text.after? t s).map fun rest => ⟨t, rest, []⟩
  | .one _, [] => none
  | .one p, c :: s => if p.test c then some ⟨[c], s, []⟩ else none
  | .rule r, s => call r s
  | .seq a b, s => do
    let m ← run call sp a s
    let g := gap sp m.rest
    let n ← run call sp b g.rest
    return m ++ (g ++ n)
  | .alt a b, s => run call sp a s <|> run call sp b s
  | .opt e, s => some ((run call sp e s).getD (.nothing s))
  | .star e, s =>
    match run call sp e s with
    | none => some (.nothing s)
    | some m => some (m ++ repeated (run call sp e) sp m.rest.length m.rest)
  | .notAhead e, s =>
    match run call sp e s with
    | none => some (.nothing s)
    | some _ => none
  | .atEnd, s => if s.isEmpty then some (.nothing s) else none

end Expr

namespace Grammar

variable {ρ : Type}

/-- The match of a rule, with rules entered no deeper than `depth`. -/
def apply (g : Grammar ρ) : (depth : Nat) → ρ → List Char → Option (Match ρ)
  | 0, _, _ => none
  | depth + 1, r, s =>
    ((g.body r).run (g.apply depth) (g.kind r).spacing s).map (.wrap (g.kind r) r)

/-- The match of a rule at the start of a text. -/
def start? (g : Grammar ρ) (r : ρ) (s : List Char) : Option (Match ρ) :=
  g.apply (g.ranks * (s.length + 1)) r s

/-- The node of a rule that matches a whole text. -/
def whole? (g : Grammar ρ) (r : ρ) (s : List Char) : Option (Node ρ) :=
  match g.start? r s with
  | some ⟨_, [], [node]⟩ => some node
  | _ => none

end Grammar

end PictureTree
