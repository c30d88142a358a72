/-
# `Proofs.Document.Survey` — the rules of the notation, graded

What each rule of the notation is known for: whether it takes a character, which
rules it enters at once, whether it matches letters, and how it meets a line
behind its text.  The tables are checked against the expressions of the rules by
evaluation, one rule at a time; a change of the grammar is a change of a table.

    fits_grammar      the tables are right about the grammar
    ranked_grammar    no more than `grammar.ranks` rules are entered at one place
-/
import PictureTree.Grammar.Rules
import PictureTree.Proofs.Grammar.Grading

namespace PictureTree

namespace Rule

open PictureTree.Expr

/-! ## Tables -/

/-- Whether a rule takes a character whenever it matches. -/
def consuming : Rule → Bool
  | .document | .body | .customBody | .refName | .paramValue | .colorValues => false
  | _ => true

/-- How many rules a rule may enter, one inside the other, before a character is
taken. -/
def rank : Rule → Nat
  | .document | .body | .customBody | .polarPair | .cartesianPair => 2
  | .arc | .curve | .framedBox | .newColor | .param | .paramValue | .quantity | .angleSpec => 1
  | _ => 0

theorem isAlpha_of_isDigit {c : Char} (h : c.isDigit = true) : c.isAlpha = false := by
  simp only [Char.isDigit, Char.isAlpha, Char.isUpper, Char.isLower, Bool.and_eq_true,
    decide_eq_true_eq, Bool.or_eq_false_iff, Bool.and_eq_false_iff, decide_eq_false_iff_not,
    ge_iff_le, UInt32.le_iff_toNat_le] at h ⊢
  have hnine : '9'.val.toNat = 57 := rfl
  have hA : 'A'.val.toNat = 65 := rfl
  have ha : 'a'.val.toNat = 97 := rfl
  omega

/-- Classes without letters. -/
def letterless : CharClass → Bool
  | .digit => true
  | .among cs => cs.all fun c => !c.isAlpha
  | _ => false

theorem isAlpha_of_letterless {p : CharClass} {c : Char} (h : letterless p = true)
    (hc : p.test c = true) : c.isAlpha = false := by
  cases p with
  | digit => exact isAlpha_of_isDigit hc
  | among cs =>
      simpa using List.all_eq_true.mp h c (List.contains_iff_mem.mp hc)
  | any | letter | alphanumeric | except => cases h

/-- The texts of letters. -/
def letters : Region Rule :=
  .within Char.isAlpha letterless isAlpha_of_letterless fun
    | .document | .body | .customBody | .refName | .paramValue | .colorValues | .paramKey | .param
    | .unit | .colorName | .colorModel | .filePath | .text | .angleSpec => false
    | _ => true

/-- The name that starts a picture of the plain form. -/
def pictureStart : List Char := "\\pspicture".toList

/-- The name that ends a picture of the plain form. -/
def pictureEnd : List Char := "\\endpspicture".toList

/-- The texts without anything that a scope, or a pair of brackets, ends with. -/
def lost : Region Rule where
  holds s := '\x7d' ∉ s ∧ ']' ∉ s ∧ ¬ pictureEnd <:+: s
  part {a b c} h := by
    have hb : b <:+: a ++ b ++ c := ⟨a, c, rfl⟩
    exact ⟨fun hm => h.1 (hb.subset hm), fun hm => h.2.1 (hb.subset hm),
      fun hp => h.2.2 (hp.trans hb)⟩
  lit t := t.contains '\x7d' || t.contains ']' || t == pictureEnd
  not_holds_lit {t} h hlost := by
    simp only [Bool.or_eq_true, List.contains_iff_mem, beq_iff_eq] at h
    rcases h with (h | h) | rfl
    · exact hlost.1 h
    · exact hlost.2.1 h
    · exact hlost.2.2 List.infix_rfl
  one _ := false
  not_holds_one h := by cases h
  rule _ := false

/-- How a rule meets a line behind its text. -/
def grade : Rule → Grade
  | .document => .unknown
  | .picture | .arcName | .curveName | .boxName | .newColorName | .star | .params | .arrows
  | .coord | .cartesianPair | .polarPair | .argument | .quantity | .number | .bracedText
  | .refPoint | .placeAngle | .arrowSpec | .colorSpec => .firm
  | .unit | .angleSpec | .colorName | .colorModel | .paramKey => .held
  | .dot => .steadyBut "\\psdot".toList
  | .grid => .steadyBut "\\psgrid".toList
  | .axes => .steadyBut "\\psaxes".toList
  | .closePath => .steadyBut "\\closepath".toList
  | _ => .steady

end Rule

/-- The commands that are complete with their names. -/
def loneCommands : List (List Char) := ["\\psdot", "\\psgrid", "\\psaxes"].map String.toList

/-- The names with which an item of a scope may be complete. -/
def loneNames : List (List Char) := "\\closepath".toList :: loneCommands

open Rule in
/-- What is known of the notation.  Settings, text and items are steady for reasons
of their own.  A picture of the plain form sees a line behind the name that ends
it: so texts do not end with this name, or if they are `ended` by it, they hold no
such picture. -/
def survey (ended : Bool) : Survey Rule where
  bare := if ended then [] else [pictureEnd]
  absent := if ended then [pictureStart] else []
  lost := lost
  letters := letters
  holds_letters h := h
  consuming := consuming
  constant r := r = .paramValue
  grade := grade
  known := [(.loose, paramList), (.tight, expr .text), (.loose, item), (.loose, customItem)]

/-! ## The tables are right -/

theorem consuming_bounds : (Region.empty Rule.consuming).Bounds grammar := by
  intro r
  cases r <;> decide

theorem letters_bounds : Rule.letters.Bounds grammar := by
  intro r
  cases r <;> decide

theorem ranked_grammar : grammar.Ranked Rule.consuming Rule.rank := by
  intro r
  cases r <;> decide

theorem fits_grammar (ended : Bool) : (survey ended).Fits grammar where
  consuming := consuming_bounds
  letters := letters_bounds
  lost _ h := by cases h
  constant r := by cases ended <;> cases r <;> decide
  allowed r := by cases ended <;> cases r <;> decide

/-- A command is a phrase that starts with what is no letter, and it sees a line
behind it at its end if at all, or behind its name. -/
theorem graded_of_mem_commands : ∀ ended, ∀ r ∈ Rule.commands, r ≠ .text ∧
    grammar.kind r = .phrase ∧ Rule.letters.rule r = true ∧
      ((survey ended).gradeOf grammar.kind .loose (grammar.body r) = .firm ∨
        (survey ended).gradeOf grammar.kind .loose (grammar.body r) = .exact ∨
          ∃ t ∈ loneCommands,
            (survey ended).gradeOf grammar.kind .loose (grammar.body r) = .exactBut t) := by
  decide

end PictureTree
