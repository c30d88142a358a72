/-
# `Proofs.Style.LineEnds` — a specification from its other end

Turned around, a line has its ends exchanged, and its specification is written from
right to left with every pointing glyph pointing the other way: this is
`ArrowStyle.flip`.  A glyph on one end is its flip on the other (`ofGlyph?_flip`), blanks
stay blanks and the hyphen stays where the ends meet, so a specification is read from
either end alike (`ofSpec?_flip`).

The glyph `|*` is the exception.  It does not point, so it is written alike on both ends,
and it is no palindrome: its flip `*|` is no glyph at all.
-/
import Mathlib.Data.List.TakeWhile
import PictureTree.Style.Arrow
import PictureTree.Proofs.Text.Unbracing

namespace PictureTree

open Text (Blanks)

/-- The other end of a line. -/
def Side.other : Side → Side
  | .left => .right
  | .right => .left

namespace ArrowStyle

variable {s g l r : List Char}

/-! ## Turning a text around -/

@[simp] theorem flipChar_flipChar (c : Char) : flipChar (flipChar c) = c := by
  by_cases h : c ∈ ['<', '>', '[', ']', '(', ')']
  · simp only [List.mem_cons, List.not_mem_nil, or_false] at h
    rcases h with rfl | rfl | rfl | rfl | rfl | rfl <;> rfl
  · have hfixed : flipChar c = c := by
      unfold flipChar
      split
      case h_7 => rfl
      all_goals exact absurd (by decide) h
    rw [hfixed, hfixed]

@[simp] theorem flip_append (s t : List Char) : flip (s ++ t) = flip t ++ flip s := by
  simp [flip]

@[simp] theorem flip_flip (s : List Char) : flip (flip s) = s := by
  have hchar : flipChar ∘ flipChar = id := funext flipChar_flipChar
  simp [flip, hchar]

theorem mem_flip {c : Char} : c ∈ flip s ↔ flipChar c ∈ s := by
  rw [flip, List.mem_map]
  constructor
  · rintro ⟨d, hd, rfl⟩
    rw [flipChar_flipChar]
    exact List.mem_reverse.mp hd
  · intro hc
    exact ⟨flipChar c, List.mem_reverse.mpr hc, flipChar_flipChar c⟩

theorem isBlank_flipChar (c : Char) : Text.isBlank (flipChar c) = Text.isBlank c := by
  unfold flipChar
  split <;> rfl

theorem blanks_flip (h : Blanks s) : Blanks (flip s) := by
  intro c hc
  rw [← isBlank_flipChar]
  exact h _ (mem_flip.mp hc)

/-- A text is trimmed from either end alike. -/
theorem trim_flip (s : List Char) : Text.trim (flip s) = flip (Text.trim s) := by
  obtain ⟨a, b, hs, ha, hb⟩ := Text.exists_trim_eq s
  obtain ⟨hfirst, hlast⟩ := Text.ends_trim s
  have hflip : flip s = flip b ++ (flip (Text.trim s) ++ flip a) := by
    have h := congrArg flip hs
    rwa [flip_append, flip_append, List.append_assoc] at h
  have hfirst' : ∀ c ∈ (flip (Text.trim s)).head?, Text.isBlank c = false := by
    intro c hc
    rw [flip, List.head?_map, List.head?_reverse] at hc
    obtain ⟨d, hd, rfl⟩ := Option.map_eq_some_iff.mp hc
    rw [isBlank_flipChar]
    exact hlast d hd
  have hlast' : ∀ c ∈ (flip (Text.trim s)).getLast?, Text.isBlank c = false := by
    intro c hc
    rw [flip, List.getLast?_map, List.getLast?_reverse] at hc
    obtain ⟨d, hd, rfl⟩ := Option.map_eq_some_iff.mp hc
    rw [isBlank_flipChar]
    exact hfirst d hd
  rw [hflip]
  exact Text.trim_blanks (blanks_flip hb) (blanks_flip ha) hfirst' hlast'

/-! ## Glyphs -/

/-- All plain glyphs but one read the same backwards. -/
theorem flip_of_ofPlain? {a : ArrowStyle} (h : ofPlain? g = some a) (hbar : g ≠ ['|', '*']) :
    flip g = g := by
  unfold ofPlain? at h
  split at h
  case h_3 => exact absurd rfl hbar
  case h_11 => cases h
  all_goals rfl

theorem ofPlain?_flip (hbar : g ≠ ['|', '*']) (hstar : g ≠ ['*', '|']) :
    ofPlain? (flip g) = ofPlain? g := by
  cases hg : ofPlain? g with
  | some a => rw [flip_of_ofPlain? hg hbar, hg]
  | none =>
      cases hflip : ofPlain? (flip g) with
      | none => rfl
      | some a =>
          have hne : flip g ≠ ['|', '*'] := by
            intro h
            refine hstar ?_
            rw [← flip_flip g, h]
            rfl
          have hsame : flip (flip g) = flip g := flip_of_ofPlain? hflip hne
          rw [flip_flip] at hsame
          rw [← hsame, hg] at hflip
          cases hflip

/-- What a glyph names on one end, its flip names on the other. -/
theorem ofGlyph?_flip (side : Side) (hbar : g ≠ ['|', '*']) (hstar : g ≠ ['*', '|']) :
    ofGlyph? side.other (flip g) = ofGlyph? side g := by
  cases side <;> simp [ofGlyph?, Side.other, ofPlain?_flip hbar hstar]

/-- No glyph has a hyphen. -/
theorem ofGlyph?_of_hyphen (side : Side) (h : '-' ∈ g) : ofGlyph? side g = Option.none := by
  have hpointing {t : List Char} (ht : '-' ∈ t) : ofPointing? t = Option.none := by
    unfold ofPointing?
    split
    case h_9 => rfl
    all_goals exact absurd ht (by decide)
  have hplain : ofPlain? g = Option.none := by
    unfold ofPlain?
    split
    case h_11 => rfl
    all_goals exact absurd h (by decide)
  cases side with
  | left => simp [ofGlyph?, hpointing h, hplain]
  | right => simp [ofGlyph?, hpointing (mem_flip.mpr h), hplain]

/-! ## Specifications -/

/-- What the glyphs on the two sides of a hyphen name. -/
def ofGlyphs? (l r : List Char) : Option (ArrowStyle × ArrowStyle) :=
  (ofGlyph? .left l).bind fun a => (ofGlyph? .right r).map fun b => (a, b)

theorem ofSpec?_eq_none (h : '-' ∉ Text.trim s) : ofSpec? s = Option.none := by
  have hall : ∀ c ∈ Text.trim s, decide (c ≠ '-') = true := by
    intro c hc
    exact decide_eq_true fun heq => h (heq ▸ hc)
  have hdrop : (Text.trim s).dropWhile (· ≠ '-') = [] := List.dropWhile_eq_nil_iff.mpr hall
  simp only [ofSpec?, hdrop]

/-- A specification is cut at its first hyphen. -/
theorem ofSpec?_eq (h : Text.trim s = l ++ '-' :: r) (hl : '-' ∉ l) :
    ofSpec? s = ofGlyphs? l r := by
  have hall : ∀ c ∈ l, decide (c ≠ '-') = true := by
    intro c hc
    exact decide_eq_true fun heq => hl (heq ▸ hc)
  have hdrop : (Text.trim s).dropWhile (· ≠ '-') = '-' :: r := by
    rw [h, List.dropWhile_append_of_pos hall]
    rfl
  have htake : (Text.trim s).takeWhile (· ≠ '-') = l := by
    rw [h, List.takeWhile_append_of_pos hall]
    simp
  simp only [ofSpec?, hdrop, htake, ofGlyphs?]
  cases ofGlyph? .left l <;> cases ofGlyph? .right r <;> rfl

theorem ofGlyphs?_flip (hl : l ≠ ['|', '*'] ∧ l ≠ ['*', '|'])
    (hr : r ≠ ['|', '*'] ∧ r ≠ ['*', '|']) :
    ofGlyphs? (flip r) (flip l) = (ofGlyphs? l r).map Prod.swap := by
  have hleft : ofGlyph? .left (flip r) = ofGlyph? .right r := ofGlyph?_flip .right hr.1 hr.2
  have hright : ofGlyph? .right (flip l) = ofGlyph? .left l := ofGlyph?_flip .left hl.1 hl.2
  rw [ofGlyphs?, ofGlyphs?, hleft, hright]
  cases ofGlyph? .left l <;> cases ofGlyph? .right r <;> rfl

/-- A second hyphen is left to the right end, where it stands in no glyph. -/
theorem ofGlyphs?_of_hyphen (h : '-' ∈ r) : ofGlyphs? l r = Option.none := by
  rw [ofGlyphs?, ofGlyph?_of_hyphen .right h]
  cases ofGlyph? .left l <;> rfl

theorem ofSpec?_of_hyphens (h : Text.trim s = l ++ '-' :: r) (hmore : '-' ∈ l ∨ '-' ∈ r) :
    ofSpec? s = Option.none := by
  by_cases hl : '-' ∈ l
  · obtain ⟨a, b, rfl, ha⟩ := List.eq_append_cons_of_mem hl
    have hs : Text.trim s = a ++ '-' :: (b ++ '-' :: r) := by simp [h]
    rw [ofSpec?_eq hs ha]
    exact ofGlyphs?_of_hyphen (by simp)
  · rw [ofSpec?_eq h hl]
    exact ofGlyphs?_of_hyphen (hmore.resolve_left hl)

/-- **A specification reads alike from either end**, unless it has the glyph `|*` or its
flip. -/
theorem ofSpec?_flip (hbar : ¬ ['|', '*'] <:+: s) (hstar : ¬ ['*', '|'] <:+: s) :
    ofSpec? (flip s) = (ofSpec? s).map Prod.swap := by
  by_cases hhyphen : '-' ∈ Text.trim s
  · obtain ⟨l, r, hs, hl⟩ := List.eq_append_cons_of_mem hhyphen
    have hflip : Text.trim (flip s) = flip r ++ '-' :: flip l := by
      rw [trim_flip, hs]
      simp [flip, flipChar]
    -- with one hyphen both texts are cut there; with more the cuts differ, and both fail
    by_cases hr : '-' ∈ r
    · rw [ofSpec?_of_hyphens hs (.inr hr), ofSpec?_of_hyphens hflip (.inl (mem_flip.mpr hr))]
      rfl
    · have hpart {g : List Char} (hg : g <:+: Text.trim s) :
          g ≠ ['|', '*'] ∧ g ≠ ['*', '|'] := by
        have hwhole : g <:+: s := hg.trans (Text.trim_infix s)
        exact ⟨fun heq => hbar (heq ▸ hwhole), fun heq => hstar (heq ▸ hwhole)⟩
      have hl' : l <:+: Text.trim s := ⟨[], '-' :: r, by simp [hs]⟩
      have hr' : r <:+: Text.trim s := ⟨l ++ ['-'], [], by simp [hs]⟩
      rw [ofSpec?_eq hs hl, ofSpec?_eq hflip fun h => hr (mem_flip.mp h)]
      exact ofGlyphs?_flip (hpart hl') (hpart hr')
  · have hflip : '-' ∉ Text.trim (flip s) := by
      rw [trim_flip]
      exact fun h => hhyphen (mem_flip.mp h)
    rw [ofSpec?_eq_none hhyphen, ofSpec?_eq_none hflip]
    rfl

theorem ofSpec?_flip_doubleArrow_bar :
    ¬ ['|', '*'] <:+: " <<-| ".toList ∧ ¬ ['*', '|'] <:+: " <<-| ".toList ∧
      flip " <<-| ".toList = " |->> ".toList ∧
      ofSpec? " <<-| ".toList = some (.doubleArrow, .barEnd) ∧
      ofSpec? " |->> ".toList = some (.barEnd, .doubleArrow) := by
  have hbar : ¬ ['|', '*'] <:+: " <<-| ".toList := by decide
  have hstar : ¬ ['*', '|'] <:+: " <<-| ".toList := by decide
  have hspec : ofSpec? " <<-| ".toList = some (.doubleArrow, .barEnd) := by decide
  have hflip := ofSpec?_flip hbar hstar
  rw [hspec] at hflip
  exact ⟨hbar, hstar, by decide, hspec, hflip⟩

end ArrowStyle

end PictureTree
