/-
# `Proofs.Numeral.Literals` — which number a spelling is

`Numeral.Plain` says which texts are numbers without an exponent.  Here such a text is
taken apart: a literal has a sign, the digits in front of the point and those behind it,
and all of its digits in a row are the digits of the number.

    - 12 . 50     digits 1250, exponent -2, negative

The texts of literals are the plain numbers (`Plain.exists_literal`), and each is read
as the number of the literal (`Literal.ofChars?_text`); so it does not matter that a text
may be taken apart in more than one way.
-/
import PictureTree.Proofs.Numeral.Spelling

namespace PictureTree

namespace Numeral

/-- A number without an exponent, as it is written: a sign, digits, a point, and digits behind
the point.  Digits are there, and behind them if there is no point, or at least one behind it. -/
structure Literal where
  sign : List Char
  whole : List Char
  point : Bool
  fraction : List Char
  isSign : sign = [] ∨ sign = ['+'] ∨ sign = ['-']
  wholeDigits : ∀ c ∈ whole, c.isDigit = true
  fractionDigits : ∀ c ∈ fraction, c.isDigit = true
  form : point = true ∧ fraction ≠ [] ∨ whole ≠ [] ∧ fraction = []

namespace Literal

/-- The text of a literal, without its sign. -/
def body (l : Literal) : List Char :=
  l.whole ++ ((if l.point then ['.'] else []) ++ l.fraction)

/-- The text of a literal. -/
def text (l : Literal) : List Char := l.sign ++ l.body

/-- Whether a literal has a minus sign. -/
def negative (l : Literal) : Bool := l.sign == ['-']

/-- The number that a literal writes. -/
def numeral (l : Literal) : Numeral :=
  .decimal l.negative (ofDigits (l.whole ++ l.fraction)) (-(l.fraction.length : Int))

theorem unsigned_body (l : Literal) : Unsigned l.body := by
  rw [body]
  rcases l.form with ⟨hpoint, hne⟩ | ⟨hne, hnil⟩
  · rw [if_pos hpoint]
    exact .fraction l.wholeDigits l.fractionDigits hne
  · rw [hnil, List.append_nil]
    cases l.point with
    | true => exact .point l.wholeDigits hne
    | false =>
        rw [if_neg Bool.false_ne_true, List.append_nil]
        exact .whole l.wholeDigits hne

theorem plain_text (l : Literal) : Plain l.text := by
  rw [text]
  rcases l.isSign with h | h | h <;> rw [h]
  · exact .unsigned l.unsigned_body
  · exact .signed (.inl rfl) l.unsigned_body
  · exact .signed (.inr rfl) l.unsigned_body

theorem splitSign_text (l : Literal) : splitSign l.text = (l.negative, l.body) := by
  rw [text, negative]
  rcases l.isSign with h | h | h <;> rw [h]
  · exact l.unsigned_body.splitSign_eq
  · rfl
  · rfl

theorem unsigned?_body (l : Literal) : unsigned? l.body
    = some (.decimal false (ofDigits (l.whole ++ l.fraction)) (-(l.fraction.length : Int))) := by
  have hsome : (l.whole.isEmpty && l.fraction.isEmpty) = false := by
    rcases l.form with ⟨-, hne⟩ | ⟨hne, -⟩ <;> simp [hne]
  have hsplit : splitDigits l.body
      = (l.whole, (if l.point then ['.'] else []) ++ l.fraction) := by
    refine splitDigits_append l.wholeDigits ?_
    intro c hc
    rcases l.form with ⟨hpoint, -⟩ | ⟨-, hnil⟩
    · rw [if_pos hpoint] at hc
      obtain rfl := Option.some.inj hc
      rfl
    · rw [hnil, List.append_nil] at hc
      split at hc
      · obtain rfl := Option.some.inj hc
        rfl
      · cases hc
  have hfraction : splitFraction ((if l.point then ['.'] else []) ++ l.fraction)
      = (l.fraction, []) := by
    rcases l.form with ⟨hpoint, -⟩ | ⟨-, hnil⟩
    · rw [if_pos hpoint]
      exact splitDigits_all l.fractionDigits
    · rw [hnil, List.append_nil]
      split <;> rfl
  rw [unsigned?, hsplit]
  simp only [hfraction, hsome]
  simp [exponent?]

/-- A literal is read as its number. -/
theorem ofChars?_text (l : Literal) : ofChars? l.text = some l.numeral := by
  rw [ofChars?, l.splitSign_text]
  simp only [l.unsigned_body.word?_eq_none, l.unsigned?_body]
  rfl

end Literal

theorem Unsigned.exists_literal {sign s : List Char} (h : Unsigned s)
    (hsign : sign = [] ∨ sign = ['+'] ∨ sign = ['-']) : ∃ l : Literal, l.text = sign ++ s := by
  cases h with
  | @fraction whole ds hwhole hds hne =>
      exact ⟨⟨sign, whole, true, ds, hsign, hwhole, hds, .inl ⟨rfl, hne⟩⟩, rfl⟩
  | whole hwhole hne =>
      refine ⟨⟨sign, s, false, [], hsign, hwhole, nofun, .inr ⟨hne, rfl⟩⟩, ?_⟩
      simp [Literal.text, Literal.body]
  | @point whole hwhole hne =>
      exact ⟨⟨sign, whole, true, [], hsign, hwhole, nofun, .inr ⟨hne, rfl⟩⟩, rfl⟩

/-- A plain number is the text of a literal. -/
theorem Plain.exists_literal {s : List Char} (h : Plain s) : ∃ l : Literal, l.text = s := by
  cases h with
  | unsigned h => exact h.exists_literal (.inl rfl)
  | signed hc h =>
      rcases hc with rfl | rfl
      · exact h.exists_literal (.inr (.inl rfl))
      · exact h.exists_literal (.inr (.inr rfl))

end Numeral

end PictureTree
