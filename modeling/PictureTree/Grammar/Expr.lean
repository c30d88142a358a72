/-
# `Grammar.Expr` — parsing expressions as data

A grammar gives every rule a parsing expression: literals, classes of
characters, sequences, ordered choice, greedy repetition and negative
look-ahead.  Choice is ordered and repetition never gives back, so a grammar
has at most one reading of a text.

A rule is a phrase, whose parts may stand apart with blanks and comments
between them, or it is tight; a tight rule shows its parts or is a token
without parts.  The meaning of expressions is given in `Grammar.Match`.
-/

namespace PictureTree

/-- A set of characters that a grammar can name. -/
inductive CharClass where
  | any
  | letter
  | digit
  | alphanumeric
  | among (cs : List Char)
  | except (cs : List Char)
deriving DecidableEq, Repr

/-- Whether a character belongs to a class; letters and digits are those of ASCII. -/
def CharClass.test : CharClass → Char → Bool
  | .any, _ => true
  | .letter, c => c.isAlpha
  | .digit, c => c.isDigit
  | .alphanumeric, c => c.isAlphanum
  | .among cs, c => cs.contains c
  | .except cs, c => !cs.contains c

/-- A parsing expression over the rule names `ρ`. -/
inductive Expr (ρ : Type) where
  | lit (text : List Char)
  | one (c : CharClass)
  | rule (r : ρ)
  | seq (first second : Expr ρ)
  | alt (first second : Expr ρ)
  | opt (e : Expr ρ)
  | star (e : Expr ρ)
  | notAhead (e : Expr ρ)
  | atEnd
deriving DecidableEq, Repr

namespace Expr

variable {ρ : Type}

/-- A literal. -/
def word (s : String) : Expr ρ := .lit s.toList

/-- Expressions one after the other. -/
def seqs : List (Expr ρ) → Expr ρ
  | [] => .lit []
  | [e] => e
  | e :: es => .seq e (seqs es)

/-- The first expression that matches. -/
def alts : List (Expr ρ) → Expr ρ
  | [] => .one (.among [])
  | [e] => e
  | e :: es => .alt e (alts es)

/-- One or more. -/
def plus (e : Expr ρ) : Expr ρ := .seq e (.star e)

/-- A literal that no letter follows. -/
def name (s : String) : Expr ρ := .seq (word s) (.notAhead (.one .letter))

end Expr

/-- How the parts of a rule stand. -/
inductive Spacing where
  | loose
  | tight
deriving DecidableEq, Repr

/-- What kind of rule a rule is. -/
inductive RuleKind where
  | phrase
  | compound
  | token
deriving DecidableEq, Repr

/-- Only the parts of a phrase may stand apart. -/
def RuleKind.spacing : RuleKind → Spacing
  | .phrase => .loose
  | .compound | .token => .tight

/-- Rules with their expressions.  At one place of a text no more than `ranks`
rules are entered one inside the other. -/
structure Grammar (ρ : Type) where
  body : ρ → Expr ρ
  kind : ρ → RuleKind
  ranks : Nat

end PictureTree
