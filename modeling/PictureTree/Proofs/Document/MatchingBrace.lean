/-
# `Proofs.Document.MatchingBrace` — where braced text ends

Plots, framed boxes, coloured texts and the values of parameters take text in braces as
it stands, up to the brace that matches the first one.  The rule finds this brace by
recursion: inside a group, groups and single characters are taken as long as there are
any, and nothing is given back.  It is also the brace at which a count along the text
first comes out even, whatever is behind it:

    some start is even                 there is braced text
    the shortest such start            is what it takes
    no start is even                   there is none, and the group is never closed

Both directions go through balanced texts.  An even start of a text that opens a brace
has a first brace that closes one too many for what is inside (`exists_closing_of_count`),
and what is in front of this brace is balanced.
-/
import PictureTree.Proofs.Document.Braces

namespace PictureTree

variable {s t u : List Char}

/-- The text starts with this one, which is not empty and has as many closing braces as
opening ones. -/
structure EvenStart (t s : List Char) : Prop where
  nonempty : t ≠ []
  start : t <+: s
  even : t.count '}' = t.count '{'

theorem Balanced.count_group (h : Balanced t) :
    ('{' :: (t ++ ['}'])).count '}' = ('{' :: (t ++ ['}'])).count '{' := by
  simp [List.count_append, h.closed]

/-- An even start of a text that opens a brace starts with a group. -/
theorem EvenStart.exists_group (h : EvenStart t ('{' :: s)) :
    ∃ a, Balanced a ∧ '{' :: (a ++ ['}']) <+: t := by
  obtain ⟨c, t, rfl⟩ := List.exists_cons_of_ne_nil h.nonempty
  obtain ⟨rfl, -⟩ := List.cons_prefix_cons.mp h.start
  have heven : t.count '}' = t.count '{' + 1 := by
    have heven := h.even
    rwa [List.count_cons_self, List.count_cons_of_ne (by decide)] at heven
  obtain ⟨a, b, rfl, ha⟩ := exists_closing_of_count (s := t) (d := 0) (by omega)
  exact ⟨a, (balanced_iff a).mpr ha, b, by simp⟩

/-- Where a start is even there is braced text, and it is no longer than this start. -/
theorem exists_start?_bracedText (h : EvenStart t ('{' :: s)) :
    ∃ m, grammar.start? .bracedText ('{' :: s) = some m ∧ m.taken <+: t := by
  obtain ⟨a, ha, hgroup⟩ := h.exists_group
  obtain ⟨u, hu⟩ := hgroup.trans h.start
  have hs : '{' :: s = '{' :: (a ++ '}' :: u) := by rw [← hu]; simp
  exact ⟨_, hs ▸ start?_bracedText ha u, hgroup⟩

/-- Braced text is one group, and even. -/
theorem evenStart_of_start?_bracedText {m : Match Rule}
    (h : grammar.start? .bracedText s = some m) :
    s.head? = some '{' ∧ m.nodes = [.mk .bracedText m.taken []] ∧ EvenStart m.taken s := by
  obtain ⟨t, ht, hs⟩ := exists_of_start?_bracedText h
  have hgroup := start?_bracedText ht m.rest
  rw [← hs, h] at hgroup
  have hm := Option.some.inj hgroup
  have htaken : m.taken = '{' :: (t ++ ['}']) := congrArg Match.taken hm
  have hnodes : m.nodes = [.mk .bracedText m.taken []] := by
    rw [htaken]
    exact congrArg Match.nodes hm
  refine ⟨by rw [hs]; rfl, hnodes, ?_⟩
  rw [htaken]
  exact ⟨List.cons_ne_nil _ _, ⟨m.rest, by rw [hs]; simp⟩, ht.count_group⟩

/-- **Braced text ends at the matching brace**: there is some exactly where a brace opens
and some start is even, and it is the shortest even start. -/
theorem start?_bracedText_iff (s : List Char) :
    ((grammar.start? .bracedText s).isSome ↔ s.head? = some '{' ∧ ∃ t, EvenStart t s) ∧
    ∀ m, grammar.start? .bracedText s = some m →
      m.taken ++ m.rest = s ∧ m.nodes = [.mk .bracedText m.taken []] ∧
      EvenStart m.taken s ∧ ∀ t, EvenStart t s → m.taken <+: t := by
  refine ⟨⟨fun hsome => ?_, ?_⟩, fun m hm => ?_⟩
  · obtain ⟨m, hm⟩ := Option.isSome_iff_exists.mp hsome
    obtain ⟨hhead, -, heven⟩ := evenStart_of_start?_bracedText hm
    exact ⟨hhead, m.taken, heven⟩
  · rintro ⟨hhead, t, ht⟩
    obtain ⟨s, rfl⟩ := List.head?_eq_some_iff.mp hhead
    obtain ⟨m, hm, -⟩ := exists_start?_bracedText ht
    exact Option.isSome_iff_exists.mpr ⟨m, hm⟩
  · obtain ⟨hhead, hnodes, heven⟩ := evenStart_of_start?_bracedText hm
    refine ⟨grammar.splits_start? .bracedText hm, hnodes, heven, fun t ht => ?_⟩
    obtain ⟨s, rfl⟩ := List.head?_eq_some_iff.mp hhead
    obtain ⟨n, hn, hprefix⟩ := exists_start?_bracedText ht
    obtain rfl := Option.some.inj (hm.symm.trans hn)
    exact hprefix

/-- The brace behind the group opens a text that is never closed, and is left alone. -/
example : ∃ m, grammar.start? .bracedText "\x7ba\x7bb\x7d\x7d\x7bc".toList = some m ∧
    m.taken = "\x7ba\x7bb\x7d\x7d".toList :=
  ⟨_, start?_bracedText (t := "a\x7bb\x7d".toList) ((balanced_iff _).mpr rfl) "\x7bc".toList, rfl⟩

end PictureTree
