/-
# `Proofs.Document.Quantities` — which texts are quantities

A parameter gives a length as a text, and it is read by the rule that reads the lengths of
coordinates: a choice of two spellings, in order, each of them greedy, and a unit that may
follow.  What is left over makes the text no quantity at all.

All this comes down to a regular language (`Quantity.ofChars?_eq_some_iff`): blanks, an
optional sign, digits with an optional point, an optional unit, blanks, and nothing else;
and the amount is the double that the written decimal is rounded to.  The order of the choice
and the greed play no part, since no spelling of a number goes on behind another one in front
of a unit or of the end.
-/
import PictureTree.Proofs.Document.Operands
import PictureTree.Proofs.Scalar.Decimals
import PictureTree.Proofs.Text.Unbracing

namespace PictureTree

open Numeral (Literal)
open Text (Blanks)

/-! ## Literals with units -/

/-- A literal with a unit, or without one. -/
def Numeral.Literal.measure (l : Literal) (u : Option LengthUnit) : Measure :=
  ⟨l.text, u, l.plain_text⟩

theorem Numeral.Literal.quantity_measure (l : Literal) (u : Option LengthUnit) :
    (l.measure u).quantity = ⟨l.numeral, u⟩ := by
  rw [Measure.quantity, measure, l.ofChars?_text]
  rfl

/-- A measure is one quantity and nothing else. -/
theorem Measure.whole?_text (m : Measure) : grammar.whole? .quantity m.text = some m.node := by
  have hstart := start?_quantity (s := []) (u := m.unit) m.plain ⟨nofun, nofun⟩ nofun
  rw [List.append_nil] at hstart
  rw [Grammar.whole?, Measure.text, hstart]
  rfl

/-- Every text of the rule is a literal with a unit or without one. -/
theorem exists_literal_of_whole? {s : List Char} {node : Node Rule}
    (h : grammar.whole? .quantity s = some node) :
    ∃ (l : Literal) (u : Option LengthUnit), s = (l.measure u).text := by
  have hderives : grammar.Derives .tight (.rule .quantity) s [node] := Grammar.derives_whole? h
  obtain ⟨_, hbody, -⟩ := hderives.exists_of_rule
  obtain ⟨number, unit, _, _, rfl, hnumber, hunit⟩ := hbody.exists_of_tight_seq
  obtain ⟨_, hnumber, -⟩ := hnumber.exists_of_rule
  obtain ⟨l, rfl⟩ := (plain_of_derives hnumber).exists_literal
  rcases hunit.or_of_opt with ⟨rfl, -⟩ | hunit
  · exact ⟨l, none, rfl⟩
  · obtain ⟨_, hunit, -⟩ := hunit.exists_of_rule
    obtain ⟨u, rfl⟩ := exists_unit_of_derives hunit
    exact ⟨l, some u, rfl⟩

/-! ## Blanks around a measure -/

theorem isBlank_of_isDigit {c : Char} (h : c.isDigit = true) : Text.isBlank c = false := by
  have hrange : 48 ≤ c.toNat ∧ c.toNat ≤ 57 := by
    simpa [Char.isDigit, UInt32.le_iff_toNat_le] using h
  simp [Text.isBlank, UInt32.le_iff_toNat_le, ← UInt32.toNat_inj]
  omega

/-- No character of a measure is a blank. -/
theorem Numeral.Literal.isBlank_of_mem (l : Literal) (u : Option LengthUnit) :
    ∀ c ∈ (l.measure u).text, Text.isBlank c = false := by
  intro c hc
  simp only [measure, Measure.text, text, body, List.mem_append] at hc
  rcases hc with (hc | hc | hc | hc) | hc
  · rcases l.isSign with h | h | h <;> rw [h] at hc
    · cases hc
    · obtain rfl := List.mem_singleton.mp hc
      decide
    · obtain rfl := List.mem_singleton.mp hc
      decide
  · exact isBlank_of_isDigit (l.wholeDigits c hc)
  · split at hc
    · obtain rfl := List.mem_singleton.mp hc
      decide
    · cases hc
  · exact isBlank_of_isDigit (l.fractionDigits c hc)
  · cases u with
    | none => cases hc
    | some u =>
        have hletters : ∀ u : LengthUnit, (u.letters.all fun c => !Text.isBlank c) = true := by
          intro u
          cases u <;> decide
        simpa using List.all_eq_true.mp (hletters u) c hc

theorem Numeral.Literal.trim_measure (l : Literal) (u : Option LengthUnit) {a b : List Char}
    (ha : Blanks a) (hb : Blanks b) :
    Text.trim (a ++ ((l.measure u).text ++ b)) = (l.measure u).text :=
  Text.trim_blanks ha hb
    (fun c hc => l.isBlank_of_mem u c (List.mem_of_mem_head? hc))
    (fun c hc => l.isBlank_of_mem u c (List.mem_of_mem_getLast? hc))

/-! ## Quantities -/

/-- The text is a literal with a unit or without one, and blanks around it. -/
def Numeral.Literal.Spells (l : Literal) (u : Option LengthUnit) (s : List Char) : Prop :=
  ∃ a b, Blanks a ∧ Blanks b ∧ s = a ++ ((l.measure u).text ++ b)

theorem Quantity.ofChars?_of_spells {l : Literal} {u : Option LengthUnit} {s : List Char}
    (h : l.Spells u s) : Quantity.ofChars? s = some ⟨l.numeral, u⟩ := by
  obtain ⟨a, b, ha, hb, rfl⟩ := h
  rw [Quantity.ofChars?, l.trim_measure u ha hb, Measure.whole?_text, ← l.quantity_measure u]
  exact (l.measure u).quantity?_node

/-- A text is a quantity exactly if it spells one, and then it is that quantity. -/
theorem Quantity.ofChars?_eq_some_iff (s : List Char) (q : Quantity) :
    Quantity.ofChars? s = some q ↔
      ∃ (l : Literal) (u : Option LengthUnit), l.Spells u s ∧ q = ⟨l.numeral, u⟩ ∧
        Double.Rounds l.value q.value := by
  constructor
  · intro h
    obtain ⟨node, hnode, -⟩ := Option.bind_eq_some_iff.mp h
    obtain ⟨l, u, htrim⟩ := exists_literal_of_whole? hnode
    obtain ⟨a, b, hs, ha, hb⟩ := Text.exists_trim_eq s
    have hspells : l.Spells u s := ⟨a, b, ha, hb, htrim ▸ hs⟩
    obtain rfl := Option.some.inj (h.symm.trans (ofChars?_of_spells hspells))
    exact ⟨l, u, hspells, rfl, l.rounds_value⟩
  · rintro ⟨l, u, hspells, rfl, -⟩
    exact ofChars?_of_spells hspells

end PictureTree
