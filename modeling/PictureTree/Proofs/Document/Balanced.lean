/-
# `Proofs.Document.Balanced` — the sources with balanced braces

Whatever is no command is text, so a document can go wrong at its braces only,
and at pictures, which may not be begun or ended out of place.  In a source
without the characters and names that play with braces or with pictures, the
braces decide alone:

    Tame s  →  (a source has items  ↔  its braces are balanced)

From left to right, what is matched is balanced (`PlainBraces.quiet`).  From right
to left, items follow one another up to the brace that closes their group: in
front of any other character there is an item, if nothing else then text.
-/
import PictureTree.Proofs.Document.Braces
import PictureTree.Proofs.Document.Commands

namespace PictureTree

open PictureTree.Expr Rule Trailer

/-! ## Tame texts -/

/-- No comments, no backslash in front of a brace or at the end, no pictures and no names of
points of reference. -/
structure Tame (s : List Char) : Prop where
  noComment : '%' ∉ s
  noOpening : ¬ ['\\', '{'] <:+: s
  noClosing : ¬ ['\\', '}'] <:+: s
  noEnd : ¬ ['\\'] <:+ s
  noPicture : ¬ "pspicture".toList <:+: s
  noPlace : ¬ "\\rput".toList <:+: s

namespace Tame

variable {s t u : List Char}

theorem of_suffix (hs : Tame s) (h : t <:+ s) : Tame t where
  noComment ht := hs.noComment (h.subset ht)
  noOpening ht := hs.noOpening (ht.trans h.isInfix)
  noClosing ht := hs.noClosing (ht.trans h.isInfix)
  noEnd ht := hs.noEnd (ht.trans h)
  noPicture ht := hs.noPicture (ht.trans h.isInfix)
  noPlace ht := hs.noPlace (ht.trans h.isInfix)

theorem plainBraces (hs : Tame s) : PlainBraces s where
  escaped c hc h := by
    simp only [isBrace, Bool.or_eq_true, beq_iff_eq] at hc
    rcases hc with rfl | rfl
    · exact hs.noOpening h
    · exact hs.noClosing h
  commented t c _ _ h := hs.noComment (h.subset List.mem_cons_self)
  placed := hs.noPlace

end Tame

/-! ## Text -/

/-- The texts without a word. -/
def without (w : List Char) : Region Rule where
  holds s := ¬ w <:+: s
  part h hb := h (hb.trans ⟨_, _, rfl⟩)
  lit t := decide (w <:+: t)
  not_holds_lit h hholds := hholds (of_decide_eq_true h)
  one _ := false
  not_holds_one h := by cases h
  rule _ := false

theorem run_reserved_eq_none {s : List Char} (hs : ¬ "pspicture".toList <:+: s) :
    reserved.run grammar.start? .tight s = none := by
  have hbounds : (without "pspicture".toList).Bounds grammar := by
    intro r hr
    cases hr
  exact Region.run_start?_eq_none hbounds (by decide) hs

/-- Where no group starts and none ends, there is text. -/
theorem isSome_start?_text {c : Char} {s : List Char} (h : Tame (c :: s))
    (hsolid : isSolid c = true) (hbrace : isBrace c = false) :
    (grammar.start? .text (c :: s)).isSome = true := by
  have hahead : (Expr.notAhead reserved).run grammar.start? .tight (c :: s)
      = some (.nothing (c :: s)) := by
    rw [Expr.run, run_reserved_eq_none h.noPicture]
  have halts : ((alts [envMarker, macroText, plainWord]).run grammar.start? .tight
      (c :: s)).isSome = true := by
    by_cases hbackslash : c = '\\'
    · subst hbackslash
      cases s with
      | nil => exact absurd List.suffix_rfl h.noEnd
      | cons d s =>
          refine isSome_run_alts (e := macroText) (by simp) ?_
          have hbackslash : (Expr.word "\\").run grammar.start? .tight ('\\' :: d :: s)
              = some ⟨['\\'], d :: s, []⟩ := rfl
          have hany : ((Expr.alt (.seq (plus (.one .letter)) (.opt (Expr.word "*")))
              (.one .any)).run grammar.start? .tight (d :: s)).isSome = true := by
            simp [Expr.run, CharClass.test]
          obtain ⟨m, hm⟩ := Option.isSome_iff_exists.mp hany
          have hrun : macroText.run grammar.start? .tight ('\\' :: d :: s)
              = some (join .tight ⟨['\\'], d :: s, []⟩ m) :=
            run_seq_join hbackslash hm
          rw [hrun]
          rfl
    · refine isSome_run_alts (e := plainWord) (by simp) ?_
      have hc : (CharClass.except [' ', '\t', '\r', '\n', '\\', '\x7b', '\x7d', '%']).test c
          = true := by
        simp only [isSolid, isSpace, isBrace, Bool.and_eq_true, Bool.not_eq_true',
          Bool.or_eq_false_iff, beq_eq_false_iff_ne, bne_iff_ne, ne_eq] at hsolid hbrace
        simp [CharClass.test, hsolid, hbrace, hbackslash]
      rw [plainWord, run_plus_one _ hc]
      rfl
  have hrun : (expr .text).run grammar.start? .tight (c :: s)
      = ((alts [envMarker, macroText, plainWord]).run grammar.start? .tight (c :: s)).map
          (join .tight (.nothing (c :: s))) :=
    run_seq_of_some hahead
  obtain ⟨m, hm⟩ := Option.isSome_iff_exists.mp halts
  have hspacing : Rule.text.kind.spacing = .tight := rfl
  rw [start?_eq_run, hspacing, hrun, hm]
  rfl

/-! ## Groups -/

/-- A body ends where the items behind the brace in front of it end. -/
theorem start?_body (s : List Char) : ∃ m,
    grammar.start? .body (gap .loose s : Match Rule).rest = some m ∧
      (gap .loose m.rest : Match Rule).rest = (gap .loose (itemsOf s).rest : Match Rule).rest := by
  have hspacing : Rule.body.kind.spacing = .loose := rfl
  have hbody : expr .body = .star item := rfl
  rw [start?_eq_run, hspacing, hbody]
  cases hm : item.run grammar.start? .loose (gap .loose s : Match Rule).rest with
  | none =>
      rw [run_star_of_none hm, itemsOf_of_none hm]
      exact ⟨_, rfl, gap_rest_gap s⟩
  | some m =>
      rw [run_star_of_some hm, itemsOf_of_some hm]
      exact ⟨_, rfl, rfl⟩

/-- A group is a block if the items inside it run to its end. -/
theorem start?_block {s u : List Char}
    (h : (gap .loose (itemsOf s).rest : Match Rule).rest = '}' :: u) :
    ∃ m, grammar.start? .block ('{' :: s) = some m ∧ m.rest = u := by
  obtain ⟨m, hm, hrest⟩ := start?_body s
  have hopening : (Expr.word "\x7b").run grammar.start? .loose ('{' :: s)
      = some ⟨['{'], s, []⟩ := rfl
  have hbody : (Expr.rule .body).run grammar.start? .loose (gap .loose s : Match Rule).rest
      = some m := hm
  have hclosing : (Expr.word "\x7d").run grammar.start? .loose
      (gap .loose m.rest : Match Rule).rest = some ⟨['}'], u, []⟩ := by
    rw [hrest, h]
    rfl
  have hrun : (expr .block).run grammar.start? .loose ('{' :: s)
      = some (join .loose ⟨['{'], s, []⟩ (join .loose m ⟨['}'], u, []⟩)) :=
    run_seq_join hopening (run_seq_join hbody hclosing)
  have hspacing : Rule.block.kind.spacing = .loose := rfl
  rw [start?_eq_run, hspacing, hrun]
  exact ⟨_, rfl, rfl⟩

/-! ## Items -/

/-- What an item takes is balanced, where braces are plain. -/
theorem balanced_of_run_item {s : List Char} {m : Match Rule} (hs : PlainBraces s)
    (h : item.run grammar.start? .loose s = some m) : Balanced m.taken := by
  have hsplit : m.taken ++ m.rest = s := Expr.split_run grammar.splits_start? .loose item h
  have hplain : PlainBraces m.taken := hs.of_infix ⟨[], m.rest, by simpa using hsplit⟩
  exact PlainBraces.quiet.balanced_of_derives (Grammar.derives_run_start? h) hplain (by decide)

/-- In front of any other character there is an item. -/
theorem isSome_run_item {c : Char} {s : List Char} (h : Tame (c :: s))
    (hsolid : isSolid c = true) (hclosing : c ≠ '}')
    (hblock : c = '{' → (grammar.start? .block (c :: s)).isSome = true) :
    (item.run grammar.start? .loose (c :: s)).isSome = true := by
  by_cases hopening : c = '{'
  · have hrule : ((Expr.rule Rule.block).run grammar.start? .loose (c :: s)).isSome = true :=
      hblock hopening
    have hcommand : (command.run grammar.start? .loose (c :: s)).isSome = true :=
      isSome_run_alts (by decide) hrule
    exact isSome_run_alts (by simp) hcommand
  · have hbrace : isBrace c = false := by simp [isBrace, hopening, hclosing]
    have hrule : ((Expr.rule Rule.text).run grammar.start? .loose (c :: s)).isSome = true :=
      isSome_start?_text h hsolid hbrace
    exact isSome_run_alts (by simp) hrule

/-- A balanced text behind a balanced start, where nothing or a closing brace is behind both. -/
theorem Balanced.exists_append {s t u v : List Char} (hs : Balanced s) (ht : Balanced t)
    (hu : u = [] ∨ ∃ w, u = '}' :: w) (h : s ++ v = t ++ u) :
    ∃ z, t = s ++ z ∧ v = z ++ u ∧ Balanced z := by
  rcases List.append_eq_append_iff.mp h with ⟨z, rfl, hv⟩ | ⟨z, rfl, hv⟩
  · exact ⟨z, rfl, hv, hs.of_append ht⟩
  · cases z with
    | nil => exact ⟨[], by simp, by simp [hv], .nil⟩
    | cons c z =>
        rcases hu with rfl | ⟨w, rfl⟩
        · cases hv
        · obtain ⟨rfl, -⟩ := List.cons.inj hv
          exact absurd hs ht.not_append_closing

/-- The items at the start of a balanced text run to its end, in front of a closing brace or
of nothing. -/
theorem rest_itemsOf_of_balanced {s t u : List Char} (hs : Tame s) (ht : Balanced t)
    (hu : u = [] ∨ ∃ v, u = '}' :: v) (hst : s = t ++ u) :
    (gap .loose (itemsOf s).rest : Match Rule).rest = u := by
  induction hn : s.length using Nat.strongRecOn generalizing s t u with
  | ind n ih =>
      have hsplit : (gap .loose s : Match Rule).taken ++ (gap .loose s : Match Rule).rest = s :=
        split_gap .loose s
      have hblank : Balanced (gap .loose s : Match Rule).taken := by
        have hplain : PlainBraces (gap .loose s : Match Rule).taken :=
          hs.plainBraces.of_infix ⟨[], _, hsplit⟩
        exact hplain.balanced_of_trivia (between_gap .loose s)
      obtain ⟨z, -, hgap, hz⟩ := hblank.exists_append ht hu (hsplit.trans hst)
      have hsuffix : z ++ u <:+ s := hgap ▸ gap_suffix .loose s
      have hlength : (z ++ u).length ≤ n := hn ▸ hsuffix.length_le
      have hzu : Tame (z ++ u) := hs.of_suffix hsuffix
      cases hm : item.run grammar.start? .loose (z ++ u) with
      | none =>
          rw [itemsOf_of_none (by rw [hgap]; exact hm), Match.rest_nothing, hgap]
          cases z with
          | nil => rfl
          | cons c z =>
              have hsolid : isSolid c = true :=
                isSolid_of_head_gap (by rw [hgap]; rfl)
              have hclosing : c ≠ '}' := by
                rintro rfl
                exact Balanced.nil.not_append_closing hz
              have hblock : c = '{' → (grammar.start? .block (c :: (z ++ u))).isSome = true := by
                rintro rfl
                obtain ⟨a, b, rfl, ha, hb⟩ := hz.exists_group
                have hinner : Tame (a ++ '}' :: b ++ u) := hzu.of_suffix ⟨['{'], rfl⟩
                rw [List.length_append, List.length_cons] at hlength
                have hrest := ih (a ++ '}' :: b ++ u).length (by simp at hlength ⊢; omega) hinner ha
                  (.inr ⟨b ++ u, rfl⟩) (by simp) rfl
                obtain ⟨m, hm, -⟩ := start?_block hrest
                rw [hm]
                rfl
              have hsome : (item.run grammar.start? .loose (c :: z ++ u)).isSome = true :=
                isSome_run_item hzu hsolid hclosing hblock
              rw [hm] at hsome
              cases hsome
      | some m =>
          have htaken : Balanced m.taken := balanced_of_run_item hzu.plainBraces hm
          have hrest : m.taken ++ m.rest = z ++ u :=
            Expr.split_run grammar.splits_start? .loose item hm
          obtain ⟨z', rfl, hrest', hz'⟩ := htaken.exists_append hz hu hrest
          have hshort : m.rest.length < (m.taken ++ z' ++ u).length := consumes_item_start? hm
          rw [itemsOf_of_some (by rw [hgap]; exact hm), Match.rest_append, Match.rest_append]
          exact ih m.rest.length (by omega) (hzu.of_suffix ⟨m.taken, hrest⟩) hz' hu hrest' rfl

/-- A tame source has items if and only if its braces are balanced. -/
theorem ofSource?_isSome_iff_balanced {source : String} (h : Tame source.toList) :
    (Item.ofSource? source).isSome = true ↔ Balanced source.toList := by
  constructor
  · intro hsome
    rw [ofSource?_isSome_iff_start?] at hsome
    obtain ⟨m, hm⟩ := Option.isSome_iff_exists.mp hsome
    have hsplit : m.taken ++ m.rest = source.toList := grammar.splits_start? .document hm
    rw [rest_of_start?_document hm, List.append_nil] at hsplit
    obtain ⟨ns, hbody, -⟩ :=
      (Grammar.derives_start? hm : grammar.Derives .loose _ _ _).exists_of_rule
    rw [hsplit] at hbody
    exact PlainBraces.quiet.balanced_of_derives hbody h.plainBraces (by decide)
  · intro hbalanced
    rw [ofSource?_isSome_iff_parses]
    exact rest_itemsOf_of_balanced h hbalanced (.inl rfl) (List.append_nil _).symm

/-- A frame without its bracket, in a group: text, and a group inside the group. -/
theorem ofSource?_isSome_broken_frame :
    Tame "\x7b\\psframe[x \x7by\x7d (0,0)\x7d \\begin".toList ∧
      Balanced "\x7b\\psframe[x \x7by\x7d (0,0)\x7d \\begin".toList ∧
      (Item.ofSource? "\x7b\\psframe[x \x7by\x7d (0,0)\x7d \\begin").isSome = true := by
  have htame : Tame "\x7b\\psframe[x \x7by\x7d (0,0)\x7d \\begin".toList := by
    constructor <;> decide
  have hbalanced : Balanced "\x7b\\psframe[x \x7by\x7d (0,0)\x7d \\begin".toList :=
    (balanced_iff _).mpr (by decide)
  exact ⟨htame, hbalanced, (ofSource?_isSome_iff_balanced htame).mpr hbalanced⟩

/-- The frame is complete, and the group around it is not. -/
example : Item.ofSource? "\x7b\\psframe(0,0)" = none := by cbv

end PictureTree
