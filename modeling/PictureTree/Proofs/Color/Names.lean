/-
# `Proofs.Color.Names` — which names can be used once they are defined

A colour name is read in three places, and each has its own idea of a name:

    a definition    what the rule of the grammar matches (`isNameChar_of_whole?`)
    the palette     a text, compared as it is
    a use           a text that is trimmed and cut at every `!`

A definition admits letters, digits and `!.-_`.  None of these is a blank, so
trimming does not touch such a name.  Cutting does: of a name with a `!` a use
looks up the pieces, and the palette is never asked for the name itself.

    no `!` in the name    a use finds what the palette has (`resolve_of_trimmed`)
    a `!` in the name     no use depends on what the palette has for it
                          (`resolve_congr`)
-/
import Mathlib
import PictureTree.Color.Palette
import PictureTree.Grammar.Rules
import PictureTree.Proofs.Grammar.Derivation
import PictureTree.Proofs.Text.Pieces

namespace PictureTree

/-! ## Names in the grammar -/

/-- The characters of the names that can be defined. -/
def isNameChar (c : Char) : Bool := c.isAlphanum || "!.-_".toList.contains c

theorem isNameChar_of_whole? {s : List Char} (h : (grammar.whole? .colorName s).isSome = true) :
    ∀ c ∈ s, isNameChar c = true := by
  obtain ⟨node, hnode⟩ := Option.isSome_iff_exists.mp h
  have hrule : grammar.Derives .tight (.rule .colorName) s [node] := grammar.derives_whole? hnode
  obtain ⟨ns, hbody, -⟩ := hrule.exists_of_rule
  refine Grammar.Derives.forall_mem_of_tight_plus (fun h => ?_) hbody
  rcases h.or_of_alt with h | h
  · exact fun c hc => Bool.or_eq_true_iff.mpr (.inl (h.test_of_mem_of_one c hc))
  · exact fun c hc => Bool.or_eq_true_iff.mpr (.inr (h.test_of_mem_of_one c hc))

theorem isBlank_of_isNameChar {c : Char} (h : isNameChar c = true) : Text.isBlank c = false := by
  have hrange : 33 ≤ c.toNat ∧ c.toNat ≤ 122 := by
    rcases Bool.or_eq_true_iff.mp h with h | h
    · simp [Char.isAlphanum, Char.isAlpha, Char.isUpper, Char.isLower, Char.isDigit,
        UInt32.le_iff_toNat_le] at h
      omega
    · have h : c = '!' ∨ c = '.' ∨ c = '-' ∨ c = '_' := by simpa using h
      rcases h with rfl | rfl | rfl | rfl <;> decide
  simp [Text.isBlank, UInt32.le_iff_toNat_le, ← UInt32.toNat_inj]
  omega

/-- No blank stands in a name that can be defined, so trimming leaves it alone. -/
theorem trimmed_of_whole? {name : String}
    (h : (grammar.whole? .colorName name.toList).isSome = true) :
    Text.trimmed name.toList = name := by
  have htrim : Text.trim name.toList = name.toList :=
    Text.trim_eq_self fun c hc => isBlank_of_isNameChar (isNameChar_of_whole? h c hc)
  rw [Text.trimmed, htrim, String.ofList_toList]

/-! ## Names in a palette -/

namespace Palette

variable {α : Type} [Scalar α]

omit [Scalar α] in
theorem find_eq {p : Palette α} {name : List Char} {color : Color α}
    (h : p.lookup? (Text.trimmed name) = some color) : p.find name = .ok color := by
  simp only [find, h]

/-- A name without a `!` is looked up as it is, blanks at its ends aside. -/
theorem resolve_of_trimmed {p : Palette α} {name spelled : String} {color : Color α}
    (htrimmed : Text.trimmed name.toList = name) (hname : '!' ∉ name.toList)
    (hspelled : Text.trimmed spelled.toList = name) (hcolor : p.lookup? name = some color) :
    p.resolve spelled = .ok color := by
  have htext : Text.trim spelled.toList = name.toList := by
    rw [← hspelled, Text.trimmed, String.toList_ofList]
  have hpieces : Text.pieces (· == '!') name.toList = [name.toList] :=
    Text.pieces_eq_singleton fun c hc => beq_eq_false_iff_ne.mpr fun h => hname (h ▸ hc)
  have hfind : p.find name.toList = .ok color := find_eq (htrimmed.symm ▸ hcolor)
  simp only [resolve, htext, hpieces, hfind]
  rfl

section Congruence

variable {p q : Palette α}
  (h : ∀ name : String, '!' ∉ name.toList → p.lookup? name = q.lookup? name)
include h

omit [Scalar α] in
theorem find_congr {piece : List Char} (hpiece : '!' ∉ piece) : p.find piece = q.find piece := by
  have hname : '!' ∉ (Text.trimmed piece).toList := by
    rw [Text.trimmed, String.toList_ofList]
    exact fun hc => hpiece (Text.mem_of_mem_trim hc)
  simp only [find, h _ hname]

theorem mixes_congr (whole : String) (c : Color α) {pieces : List (List Char)}
    (hpieces : ∀ piece ∈ pieces, '!' ∉ piece) :
    p.mixes whole c pieces = q.mixes whole c pieces := by
  fun_induction p.mixes whole c pieces with
  | case1 => rfl
  | case2 => rfl
  | case3 c percent other more ih =>
      simp only [List.forall_mem_cons] at hpieces
      obtain ⟨-, hother, hmore⟩ := hpieces
      rw [mixes, find_congr h hother]
      simp only [ih _ _ hmore]

/-- What a palette has for names with a `!` is never looked up. -/
theorem resolve_congr (spelled : String) : p.resolve spelled = q.resolve spelled := by
  have hpieces : ∀ piece ∈ Text.pieces (· == '!') (Text.trim spelled.toList), '!' ∉ piece := by
    intro piece hpiece hc
    exact absurd (Text.eq_false_of_mem_pieces hpiece _ hc) (by decide)
  cases hcut : Text.pieces (· == '!') (Text.trim spelled.toList) with
  | nil => exact absurd hcut (Text.pieces_ne_nil _ _)
  | cons base rest =>
      rw [hcut] at hpieces
      obtain ⟨hbase, hrest⟩ := List.forall_mem_cons.mp hpieces
      have hmixes (whole : String) (c : Color α) : p.mixes whole c rest = q.mixes whole c rest :=
        mixes_congr h whole c hrest
      simp only [resolve, hcut, find_congr h hbase, hmixes]

end Congruence

end Palette

end PictureTree
