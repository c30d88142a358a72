/-
# `Proofs.Text.Unbracing` — dropping an outer pair of braces

`Text.unbrace` looks at the first character and the last one, and not at what is
between them.  A balanced text that starts with a brace starts with a group, and what is
behind this group decides what is left:

    nothing                            the text inside the group, balanced
    a text that ends with a brace      a text that is not balanced
    a text that ends with another      the whole text

So the braces of a balanced text are still balanced, unless it starts with one group and
ends with another (`Balanced.unbrace_iff`).  Trimming does not change this, since a
brace is no blank (`Balanced.trim_iff`).
-/
import PictureTree.Proofs.Text.Braces
import PictureTree.Proofs.Text.Pieces

namespace PictureTree

/-! ## Trimming -/

namespace Text

/-- Some blanks. -/
def Blanks (s : List Char) : Prop := ∀ c ∈ s, isBlank c = true

/-- What trimming takes away are the blanks at the two ends. -/
theorem exists_trim_eq (s : List Char) : ∃ a b, s = a ++ (trim s ++ b) ∧ Blanks a ∧ Blanks b := by
  let t := trimStart isBlank s
  refine ⟨s.takeWhile isBlank, (t.reverse.takeWhile isBlank).reverse, ?_, ?_, ?_⟩
  · have hstart : s.takeWhile isBlank ++ t = s := List.takeWhile_append_dropWhile
    have hend : trim s ++ (t.reverse.takeWhile isBlank).reverse = t := by
      show (t.reverse.dropWhile isBlank).reverse ++ _ = t
      rw [← List.reverse_append, List.takeWhile_append_dropWhile, List.reverse_reverse]
    rw [hend, hstart]
  · exact List.all_eq_true.mp List.all_takeWhile
  · intro c hc
    exact List.all_eq_true.mp List.all_takeWhile c (List.mem_reverse.mp hc)

theorem trim_infix (s : List Char) : trim s <:+: s := by
  obtain ⟨a, b, hs, -, -⟩ := exists_trim_eq s
  exact ⟨a, b, (List.append_assoc ..).trans hs.symm⟩

theorem trimStart_append {p : Char → Bool} {a t : List Char} (ha : ∀ c ∈ a, p c = true)
    (ht : ∀ c ∈ t.head?, p c = false) : trimStart p (a ++ t) = t := by
  rw [trimStart, List.dropWhile_append_of_pos ha]
  cases t with
  | nil => rfl
  | cons c t => exact List.dropWhile_cons_of_neg (by simp [ht c rfl])

/-- Trimming takes away all blanks around a text that neither starts nor ends with one. -/
theorem trim_blanks {a b t : List Char} (ha : Blanks a) (hb : Blanks b)
    (hfirst : ∀ c ∈ t.head?, isBlank c = false) (hlast : ∀ c ∈ t.getLast?, isBlank c = false) :
    trim (a ++ (t ++ b)) = t := by
  by_cases hnil : t = []
  · subst hnil
    have hblanks : Blanks (a ++ b) := by
      intro c hc
      exact (List.mem_append.mp hc).elim (ha c) (hb c)
    have h := trimStart_append (p := isBlank) (t := []) hblanks nofun
    rw [List.append_nil] at h
    rw [trim, trimBy, List.nil_append, h]
    rfl
  · have hhead : (t ++ b).head? = t.head? := by
      obtain ⟨c, t, rfl⟩ := List.exists_cons_of_ne_nil hnil
      rfl
    have hreverse : Blanks b.reverse := fun c hc => hb c (List.mem_reverse.mp hc)
    rw [trim, trimBy, trimStart_append ha (hhead ▸ hfirst), trimEnd, List.reverse_append]
    have h := trimStart_append (p := isBlank) (t := t.reverse) hreverse
      (by rwa [List.head?_reverse])
    exact (congrArg List.reverse h).trans t.reverse_reverse

theorem head?_trimStart {p : Char → Bool} (s : List Char) :
    ∀ c ∈ (trimStart p s).head?, p c = false := by
  induction s with
  | nil => exact nofun
  | cons d s ih =>
      rw [trimStart, List.dropWhile_cons]
      split
      · exact ih
      · next hd =>
          intro c hc
          obtain rfl := Option.some.inj hc
          exact Bool.eq_false_iff.mpr hd

/-- A trimmed text neither starts nor ends with a blank. -/
theorem ends_trim (s : List Char) : (∀ c ∈ (trim s).head?, isBlank c = false) ∧
    ∀ c ∈ (trim s).getLast?, isBlank c = false := by
  constructor
  · intro c hc
    have hstart : trim s <+: trimStart isBlank s := by
      rw [← List.reverse_suffix]
      show ((trimStart isBlank s).reverse.dropWhile isBlank).reverse.reverse <:+ _
      rw [List.reverse_reverse]
      exact List.dropWhile_suffix isBlank
    obtain ⟨b, hb⟩ := hstart
    refine head?_trimStart s c ?_
    rw [← hb, List.head?_append, hc]
    rfl
  · intro c hc
    have hlast : (trim s).getLast? = (trimStart isBlank (trimStart isBlank s).reverse).head? :=
      List.getLast?_reverse
    exact head?_trimStart _ c (hlast ▸ hc)

theorem trim_trim (s : List Char) : trim (trim s) = trim s := by
  have h := trim_blanks (a := []) (b := []) nofun nofun (ends_trim s).1 (ends_trim s).2
  rwa [List.nil_append, List.append_nil] at h

end Text

open Text (Blanks)

theorem ne_brace_of_isBlank {c : Char} (h : Text.isBlank c = true) : c ≠ '{' ∧ c ≠ '}' := by
  constructor <;> rintro rfl <;> exact absurd h (by decide)

/-- Blanks at the ends of a text play no part in its braces. -/
theorem Balanced.blanks_iff {a b s : List Char} (ha : Blanks a) (hb : Blanks b) :
    Balanced (a ++ (s ++ b)) ↔ Balanced s := by
  have hblanks {u : List Char} (hu : Blanks u) (d : Nat) : PictureTree.braceDepth u d = some d :=
    braceDepth_of_forall_ne (fun c hc => ne_brace_of_isBlank (hu c hc)) d
  rw [balanced_iff, balanced_iff, braceDepth_append, hblanks ha, Option.bind_some,
    braceDepth_append]
  cases hs : PictureTree.braceDepth s 0 with
  | none => simp
  | some d => rw [Option.bind_some, hblanks hb]

theorem Balanced.trim_iff (s : List Char) : Balanced (Text.trim s) ↔ Balanced s := by
  obtain ⟨a, b, hs, ha, hb⟩ := Text.exists_trim_eq s
  have h := Balanced.blanks_iff (s := Text.trim s) ha hb
  rw [← hs] at h
  exact h.symm

/-! ## Groups -/

/-- The text is a group, with this text inside. -/
def IsGroup (t w : List Char) : Prop := Balanced t ∧ w = '{' :: (t ++ ['}'])

/-- A group stands at the start of the text and a closing brace at its end, and the brace
does not end the group. -/
def Mismatched (w : List Char) : Prop :=
  ∃ t u, Balanced t ∧ w = '{' :: (t ++ '}' :: (u ++ ['}']))

theorem IsGroup.unbrace_eq {t w : List Char} (h : IsGroup t w) : Text.unbrace w = t := by
  obtain ⟨-, rfl⟩ := h
  simp [Text.unbrace]

/-- The closing brace of the first group is left without its opening brace. -/
theorem Mismatched.not_balanced_unbrace {w : List Char} (h : Mismatched w) :
    ¬ Balanced (Text.unbrace w) := by
  obtain ⟨t, u, ht, rfl⟩ := h
  have hinner : Text.unbrace ('{' :: (t ++ '}' :: (u ++ ['}']))) = t ++ '}' :: u := by
    simp [Text.unbrace]
  rw [hinner]
  exact ht.not_append_closing

theorem unbrace_of_getLast?_ne {w : List Char} (h : w.getLast? ≠ some '}') :
    Text.unbrace w = w := by
  unfold Text.unbrace
  split
  · next s =>
      split
      · next inner heq =>
          have hlast : s = inner.reverse ++ ['}'] := by
            rw [← List.reverse_reverse s, heq, List.reverse_cons]
          simp [hlast, List.getLast?_cons] at h
      · rfl
  · rfl

theorem unbrace_of_head?_ne {w : List Char} (h : w.head? ≠ some '{') : Text.unbrace w = w := by
  unfold Text.unbrace
  split
  · exact absurd rfl h
  · rfl

/-- A balanced text is a group, or starts with one and ends with another, or has no outer
braces. -/
theorem Balanced.group_or {w : List Char} (h : Balanced w) :
    (∃ t, IsGroup t w) ∨ Mismatched w ∨ Text.unbrace w = w := by
  by_cases hhead : w.head? = some '{'
  · obtain ⟨s, rfl⟩ := List.head?_eq_some_iff.mp hhead
    obtain ⟨t, u, rfl, ht, -⟩ := h.exists_group
    rcases List.eq_nil_or_concat u with rfl | ⟨u, c, rfl⟩
    · exact .inl ⟨t, ht, rfl⟩
    · by_cases hc : c = '}'
      · subst hc
        exact .inr (.inl ⟨t, u, ht, by simp⟩)
      · refine .inr (.inr (unbrace_of_getLast?_ne ?_))
        simp [List.getLast?_cons, List.getLast?_append, hc]
  · exact .inr (.inr (unbrace_of_head?_ne hhead))

/-- The outer braces of a balanced text belong together exactly if the text without them is
balanced. -/
theorem Balanced.unbrace_iff {w : List Char} (h : Balanced w) :
    Balanced (Text.unbrace w) ↔ ¬ Mismatched w := by
  constructor
  · intro hinner hmismatched
    exact hmismatched.not_balanced_unbrace hinner
  · intro hmatched
    rcases h.group_or with ⟨t, ht⟩ | hmismatched | hsame
    · rw [ht.unbrace_eq]
      exact ht.1
    · exact absurd hmismatched hmatched
    · rwa [hsame]

end PictureTree
