/-
# `Proofs.Numeral.Spelling` — numbers without an exponent

Where the notation itself has a number, it is written without an exponent: an
optional sign, and digits in which a point may stand.  The point may be the
first character or the last one, but it may not stand alone.  Such a text is
always the text of a number, `Numeral.Plain.exists_ofChars?`; the general form,
with an exponent and with words, is that of settings and colours.  Whole numbers,
which settings have as well, are the same number in both (`ofChars?_of_count?`).
-/
import PictureTree.Numeral

namespace PictureTree

namespace Numeral

/-- Digits with an optional point, and one digit at least. -/
inductive Unsigned : List Char → Prop
  | fraction {whole ds : List Char} (hwhole : ∀ c ∈ whole, c.isDigit = true)
      (hds : ∀ c ∈ ds, c.isDigit = true) (hne : ds ≠ []) : Unsigned (whole ++ '.' :: ds)
  | whole {whole : List Char} (hwhole : ∀ c ∈ whole, c.isDigit = true) (hne : whole ≠ []) :
      Unsigned whole
  | point {whole : List Char} (hwhole : ∀ c ∈ whole, c.isDigit = true) (hne : whole ≠ []) :
      Unsigned (whole ++ ['.'])

/-- A number without an exponent: an optional sign, and digits with an optional point. -/
inductive Plain : List Char → Prop
  | unsigned {s : List Char} (h : Unsigned s) : Plain s
  | signed {c : Char} {s : List Char} (hc : c = '+' ∨ c = '-') (h : Unsigned s) : Plain (c :: s)

theorem Unsigned.exists_cons {s : List Char} (h : Unsigned s) :
    ∃ c r, s = c :: r ∧ (c.isDigit = true ∨ c = '.') := by
  cases h with
  | @fraction whole ds hwhole hds hne =>
      cases whole with
      | nil => exact ⟨_, _, rfl, .inr rfl⟩
      | cons c whole => exact ⟨c, _, rfl, .inl (hwhole c List.mem_cons_self)⟩
  | whole hwhole hne =>
      obtain ⟨c, r, rfl⟩ := List.exists_cons_of_ne_nil hne
      exact ⟨c, r, rfl, .inl (hwhole c List.mem_cons_self)⟩
  | @point whole hwhole hne =>
      obtain ⟨c, r, rfl⟩ := List.exists_cons_of_ne_nil hne
      exact ⟨c, _, rfl, .inl (hwhole c List.mem_cons_self)⟩

/-- Digits are no letters, in either case. -/
theorem toLower_of_isDigit {c : Char} (h : c.isDigit = true ∨ c = '.') :
    c.toLower ≠ 'i' ∧ c.toLower ≠ 'n' := by
  rcases h with h | rfl
  · have hupper : ¬ (c.val ≥ 'A'.val ∧ c.val ≤ 'Z'.val) := by
      intro hc
      simp only [Char.isDigit, Bool.and_eq_true, decide_eq_true_eq] at h
      exact absurd (UInt32.le_trans hc.1 h.2) (by decide)
    have hsame : c.toLower = c := by
      unfold Char.toLower
      rw [dif_neg hupper]
    rw [hsame]
    constructor
    · rintro rfl
      exact absurd h (by decide)
    · rintro rfl
      exact absurd h (by decide)
  · decide

theorem Unsigned.word?_eq_none {s : List Char} (h : Unsigned s) : word? s = none := by
  obtain ⟨c, r, rfl, hc⟩ := h.exists_cons
  obtain ⟨hi, hn⟩ := toLower_of_isDigit hc
  simp [word?, hi, hn]

theorem splitDigits_append {ds r : List Char} (hds : ∀ c ∈ ds, c.isDigit = true)
    (hr : ∀ c ∈ r.head?, c.isDigit = false) : splitDigits (ds ++ r) = (ds, r) := by
  have hrest : r.takeWhile Char.isDigit = [] ∧ r.dropWhile Char.isDigit = r := by
    cases r with
    | nil => exact ⟨rfl, rfl⟩
    | cons c r =>
        have hc : c.isDigit = false := hr c rfl
        simp [hc]
  rw [splitDigits, List.takeWhile_append_of_pos hds, List.dropWhile_append_of_pos hds, hrest.1,
    hrest.2, List.append_nil]

theorem splitDigits_all {ds : List Char} (hds : ∀ c ∈ ds, c.isDigit = true) :
    splitDigits ds = (ds, []) := by
  have h := splitDigits_append (r := []) hds (by simp)
  rwa [List.append_nil] at h

theorem Unsigned.exists_unsigned? {s : List Char} (h : Unsigned s) :
    ∃ n, unsigned? s = some n := by
  cases h with
  | @fraction whole ds hwhole hds hne =>
      have hsplit : splitDigits (whole ++ '.' :: ds) = (whole, '.' :: ds) :=
        splitDigits_append hwhole (by simp)
      simp [unsigned?, hsplit, splitFraction, splitDigits_all hds, hne, exponent?]
  | whole hwhole hne => simp [unsigned?, splitDigits_all hwhole, splitFraction, hne, exponent?]
  | @point whole hwhole hne =>
      have hsplit : splitDigits (whole ++ ['.']) = (whole, ['.']) :=
        splitDigits_append hwhole (by simp)
      have hnil : splitDigits [] = ([], []) := rfl
      simp [unsigned?, hsplit, splitFraction, hnil, hne, exponent?]

theorem Unsigned.splitSign_eq {s : List Char} (h : Unsigned s) : splitSign s = (false, s) := by
  obtain ⟨c, r, rfl, hc⟩ := h.exists_cons
  have hsign : c ≠ '-' ∧ c ≠ '+' := by
    constructor <;> rintro rfl <;> exact absurd hc (by decide)
  unfold splitSign
  split
  · next heq => exact absurd (List.cons.inj heq).1 hsign.1
  · next heq => exact absurd (List.cons.inj heq).1 hsign.2
  · rfl

theorem exists_ofChars?_of_unsigned {s t : List Char} {negative : Bool}
    (hs : splitSign s = (negative, t)) (ht : Unsigned t) : ∃ n, ofChars? s = some n := by
  obtain ⟨n, hn⟩ := ht.exists_unsigned?
  simp [ofChars?, hs, ht.word?_eq_none, hn]

/-- A number without an exponent is a number. -/
theorem Plain.exists_ofChars? {s : List Char} (h : Plain s) : ∃ n, ofChars? s = some n := by
  cases h with
  | unsigned h => exact exists_ofChars?_of_unsigned h.splitSign_eq h
  | signed hc h =>
      rcases hc with rfl | rfl
      · exact exists_ofChars?_of_unsigned rfl h
      · exact exists_ofChars?_of_unsigned rfl h

theorem Plain.exists_cons {s : List Char} (h : Plain s) :
    ∃ c r, s = c :: r ∧ (c.isDigit = true ∨ c = '.' ∨ c = '+' ∨ c = '-') := by
  cases h with
  | unsigned h =>
      obtain ⟨c, r, rfl, hc⟩ := h.exists_cons
      exact ⟨c, r, rfl, hc.imp_right .inl⟩
  | signed hc h => exact ⟨_, _, rfl, .inr (.inr hc)⟩

/-! ## Whole numbers -/

theorem ofChars?_of_digits {s ds : List Char} (hs : splitSign s = (false, ds))
    (hds : ∀ c ∈ ds, c.isDigit = true) (hne : ds ≠ []) :
    ofChars? s = some (.decimal false (ofDigits ds) 0) := by
  have hword : word? ds = none := (Unsigned.whole hds hne).word?_eq_none
  have hunsigned : unsigned? ds = some (.decimal false (ofDigits ds) 0) := by
    simp [unsigned?, splitDigits_all hds, splitFraction, hne, exponent?]
  rw [ofChars?, hs]
  simp only [hword, hunsigned]
  rfl

/-- A text that is read as a whole number is read as that number in the general form. -/
theorem ofChars?_of_count? {s : List Char} {n : Nat} (h : count? s = some n) :
    ofChars? s = some (.decimal false n 0) ∧ n < 4294967296 := by
  have hdigits (ds : List Char) (hs : splitSign s = (false, ds) ∨ s = ds)
      (h : (if ds.isEmpty || !ds.all Char.isDigit then none
        else if ofDigits ds < 4294967296 then some (ofDigits ds) else none) = some n) :
      ofChars? s = some (.decimal false n 0) ∧ n < 4294967296 := by
    split at h
    · cases h
    · next hform =>
        obtain ⟨hne, hds⟩ : ds ≠ [] ∧ ∀ c ∈ ds, c.isDigit = true := by simpa using hform
        split at h
        · next hbound =>
            obtain rfl := Option.some.inj h
            refine ⟨ofChars?_of_digits (hs.elim id ?_) hds hne, hbound⟩
            rintro rfl
            exact (Unsigned.whole hds hne).splitSign_eq
        · cases h
  unfold count? at h
  split at h
  · next ds => exact hdigits ds (.inl rfl) h
  · exact hdigits s (.inr rfl) h

end Numeral

end PictureTree
