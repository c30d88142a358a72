/-
# `Proofs.Document.Braces` — what the notation does to braces

Almost every rule takes as many closing braces as opening ones.  The exceptions
are few: a macro may be a backslash and a brace, a comment may hold braces, and
so may the name of a point of reference, which only `\rput` has.  In texts with
none of these, whatever is matched is balanced.

Braced text is the exception to the exceptions: it takes its text as it stands,
backslashes and percent signs among it, up to the brace that matches.

    texts without exceptions           `PlainBraces`
    what is matched in them            `PlainBraces.balanced_of_derives`
    braced text is a balanced group    `start?_bracedText`, `exists_of_start?_bracedText`
-/
import PictureTree.Proofs.Document.Sources
import PictureTree.Proofs.Grammar.Balance
import PictureTree.Proofs.Grammar.Running

namespace PictureTree

open PictureTree.Expr Rule Trailer

/-! ## Braced text -/

/-- In tight rules nothing is skipped, and braced text is balanced in any text. -/
theorem quiet_tight : Quiet grammar (fun r => r = .bracedText) (fun sp _ => sp = .tight) where
  part := by
    intro sp a b c h
    exact ⟨h, h, h⟩
  between h := by cases h
  rule := by
    intro sp r t ns hr _ _ hbody
    obtain rfl : r = .bracedText := of_decide_eq_true hr
    exact hbody rfl (by decide)

/-- Braced text is a balanced group. -/
theorem exists_of_start?_bracedText {s : List Char} {m : Match Rule}
    (h : grammar.start? .bracedText s = some m) :
    ∃ t, Balanced t ∧ s = '{' :: (t ++ '}' :: m.rest) := by
  have hsplit : m.taken ++ m.rest = s := grammar.splits_start? .bracedText h
  obtain ⟨ns, hbody, -⟩ := (Grammar.derives_start? h : grammar.Derives .tight _ _ _).exists_of_rule
  obtain ⟨opening, rest, _, _, htaken, hopening, hrest⟩ := hbody.exists_of_tight_seq
  obtain ⟨t, closing, _, _, rfl, ht, hclosing⟩ := hrest.exists_of_tight_seq
  obtain ⟨rfl, -⟩ := hopening.eq_of_lit
  obtain ⟨rfl, -⟩ := hclosing.eq_of_lit
  refine ⟨t, quiet_tight.balanced_of_derives ht rfl (by decide), ?_⟩
  rw [← hsplit, htaken]
  simp

/-- Where no balanced group is, there is no braced text. -/
theorem start?_bracedText_eq_none {s : List Char}
    (h : ∀ t u, s = t ++ '}' :: u → ¬ Balanced t) :
    grammar.start? .bracedText ('{' :: s) = none := by
  refine Option.eq_none_iff_forall_ne_some.mpr ?_
  intro m hm
  obtain ⟨t, ht, hs⟩ := exists_of_start?_bracedText hm
  exact h t m.rest (List.cons.inj hs).2 ht

theorem start?_bracedText_of_ne {c : Char} (hc : c ≠ '{') (s : List Char) :
    grammar.start? .bracedText (c :: s) = none := by
  refine Option.eq_none_iff_forall_ne_some.mpr ?_
  intro m hm
  obtain ⟨t, -, hs⟩ := exists_of_start?_bracedText hm
  exact hc (List.cons.inj hs).1

/-- The pieces of braced text, each a group or a character. -/
abbrev piece : Expr Rule := .alt (.rule .bracedText) noBrace

theorem consumes_piece : Consumes (piece.run grammar.start? .tight) :=
  consumes_start?_of_left consuming_bounds (by decide)

/-- As many pieces as there are. -/
abbrev pieces (s : List Char) : Match Rule :=
  repetitions (piece.run grammar.start? .tight) .tight s

theorem run_piece_closing (s : List Char) : piece.run grammar.start? .tight ('}' :: s) = none := by
  have hgroup : (Expr.rule .bracedText).run grammar.start? .tight ('}' :: s) = none :=
    start?_bracedText_of_ne (by decide) s
  rw [run_alt_of_none hgroup]
  rfl

theorem run_piece_char {c : Char} (hopening : c ≠ '{') (hclosing : c ≠ '}') (s : List Char) :
    piece.run grammar.start? .tight (c :: s) = some ⟨[c], s, []⟩ := by
  have hgroup : (Expr.rule .bracedText).run grammar.start? .tight (c :: s) = none :=
    start?_bracedText_of_ne hopening s
  rw [run_alt_of_none hgroup]
  simp [noBrace, Expr.run, CharClass.test, hopening, hclosing]

theorem start?_bracedText_of_pieces {t u : List Char} (htaken : (pieces (t ++ '}' :: u)).taken = t)
    (hrest : (pieces (t ++ '}' :: u)).rest = '}' :: u) :
    grammar.start? .bracedText ('{' :: (t ++ '}' :: u))
      = some ⟨'{' :: (t ++ ['}']), u, [.mk .bracedText ('{' :: (t ++ ['}'])) []]⟩ := by
  have hopening : (Expr.word "\x7b").run grammar.start? .tight ('{' :: (t ++ '}' :: u))
      = some ⟨['{'], t ++ '}' :: u, []⟩ := rfl
  have hpieces : (Expr.star piece).run grammar.start? .tight (t ++ '}' :: u)
      = some (pieces (t ++ '}' :: u)) :=
    run_star_tight consumes_piece _
  have hclosing : (Expr.word "\x7d").run grammar.start? .tight (pieces (t ++ '}' :: u)).rest
      = some ⟨['}'], u, []⟩ := by
    rw [hrest]
    rfl
  have hrun : (expr .bracedText).run grammar.start? .tight ('{' :: (t ++ '}' :: u))
      = some (join .tight ⟨['{'], t ++ '}' :: u, []⟩
          (join .tight (pieces (t ++ '}' :: u)) ⟨['}'], u, []⟩)) :=
    run_seq_join hopening (run_seq_join hpieces hclosing)
  have hspacing : Rule.bracedText.kind.spacing = .tight := rfl
  rw [start?_eq_run, hspacing, hrun]
  simp [join, gap, Match.wrap, kind, htaken]

/-- The pieces at the start of a balanced text run to its end. -/
theorem pieces_of_balanced {t : List Char} (ht : Balanced t) (u : List Char) :
    (pieces (t ++ '}' :: u)).taken = t ∧ (pieces (t ++ '}' :: u)).rest = '}' :: u := by
  induction hn : t.length using Nat.strongRecOn generalizing t u with
  | ind n ih =>
      have hgo : ∀ {a b : List Char} {m : Match Rule}, t = a ++ b → b.length < n → Balanced b →
          piece.run grammar.start? .tight (t ++ '}' :: u) = some m → m.taken = a →
          m.rest = b ++ '}' :: u →
          (pieces (t ++ '}' :: u)).taken = t ∧ (pieces (t ++ '}' :: u)).rest = '}' :: u := by
        intro a b m hab hlength hb hm htaken hrest
        obtain ⟨hb', hb''⟩ := ih b.length hlength hb u rfl
        rw [pieces, repetitions_tight_of_some consumes_piece hm, hrest]
        simp [htaken, hb', hb'', hab]
      cases t with
      | nil =>
          have hnone : pieces ('}' :: u) = .nothing ('}' :: u) :=
            repetitions_of_none (run_piece_closing u)
          rw [List.nil_append, hnone]
          exact ⟨rfl, rfl⟩
      | cons c t =>
          rw [List.length_cons] at hn
          by_cases hopening : c = '{'
          · subst hopening
            obtain ⟨a, b, rfl, ha, hb⟩ := ht.exists_group
            rw [List.length_append, List.length_cons] at hn
            obtain ⟨ha', ha''⟩ := ih a.length (by omega) ha (b ++ '}' :: u) rfl
            have hgroup : piece.run grammar.start? .tight ('{' :: (a ++ '}' :: (b ++ '}' :: u)))
                = some _ :=
              run_alt_of_some (start?_bracedText_of_pieces ha' ha'')
            have hstart : '{' :: (a ++ '}' :: b) = '{' :: (a ++ ['}']) ++ b := by simp
            exact hgo hstart (by omega) hb (by simpa using hgroup) rfl rfl
          · have hclosing : c ≠ '}' := by
              rintro rfl
              exact Balanced.nil.not_append_closing ht
            have htail : Balanced t := by
              rw [balanced_iff, braceDepth_cons_of_ne hopening hclosing] at ht
              exact (balanced_iff t).mpr ht
            exact hgo (a := [c]) rfl (by omega) htail (run_piece_char hopening hclosing _) rfl rfl

/-- A balanced group is braced text, whatever is behind it. -/
theorem start?_bracedText {t : List Char} (ht : Balanced t) (u : List Char) :
    grammar.start? .bracedText ('{' :: (t ++ '}' :: u))
      = some ⟨'{' :: (t ++ ['}']), u, [.mk .bracedText ('{' :: (t ++ ['}'])) []]⟩ := by
  obtain ⟨htaken, hrest⟩ := pieces_of_balanced ht u
  exact start?_bracedText_of_pieces htaken hrest

/-! ## Calm rules -/

/-- Whether a rule takes balanced texts only, where braces are plain. -/
def Rule.calm : Rule → Bool
  | .refPoint | .refName => false
  | _ => true

theorem braces_expr : ∀ r : Rule, r.calm = true → r ≠ .text → r ≠ .place →
    (expr r).braces calm 0 = some 0 := by
  intro r
  cases r <;> decide +kernel

/-! ## Texts with plain braces -/

/-- Whether a character is a brace. -/
def isBrace (c : Char) : Bool := c == '{' || c == '}'

theorem isBrace_of_isSpace {c : Char} (h : isSpace c = true) : isBrace c = false := by
  simp only [isSpace, Bool.or_eq_true, beq_iff_eq] at h
  rcases h with ((rfl | rfl) | rfl) | rfl <;> rfl

theorem balanced_singleton {c : Char} (hc : isBrace c = false) : Balanced [c] := by
  obtain ⟨hopening, hclosing⟩ : c ≠ '{' ∧ c ≠ '}' := by simpa [isBrace] using hc
  exact (balanced_iff [c]).mpr (braceDepth_cons_of_ne hopening hclosing [] 0)

/-- No brace stands behind a backslash or in a comment, and no name of a point of reference
may hold one. -/
structure PlainBraces (s : List Char) : Prop where
  escaped : ∀ c, isBrace c = true → ¬ ['\\', c] <:+: s
  commented : ∀ t c, (∀ x ∈ t, isLineEnd x = false) → isBrace c = true → ¬ '%' :: (t ++ [c]) <:+: s
  placed : ¬ "\\rput".toList <:+: s

namespace PlainBraces

variable {s t u v : List Char}

theorem of_infix (hs : PlainBraces s) (h : t <:+: s) : PlainBraces t where
  escaped c hc ht := hs.escaped c hc (ht.trans h)
  commented u c hu hc ht := hs.commented u c hu hc (ht.trans h)
  placed ht := hs.placed (ht.trans h)

theorem parts (hs : PlainBraces (t ++ (u ++ v))) :
    PlainBraces t ∧ PlainBraces u ∧ PlainBraces v :=
  ⟨hs.of_infix ⟨[], u ++ v, rfl⟩, hs.of_infix ⟨t, v, by simp⟩, hs.of_infix ⟨t ++ u, [], by simp⟩⟩

/-- Whether blanks and comments start in a comment or not, they hold no brace. -/
theorem isBrace_of_mem_trivia {inComment : Bool} (hu : splitTrivia inComment u = (u, []))
    (hplain : if inComment then ∃ t, (∀ x ∈ t, isLineEnd x = false) ∧ PlainBraces ('%' :: (t ++ u))
      else PlainBraces u) : ∀ c ∈ u, isBrace c = false := by
  induction u generalizing inComment with
  | nil => exact fun c hc => by cases hc
  | cons c u ih =>
      have htail : ∀ {still : Bool}, splitTrivia inComment (c :: u)
          = (c :: (splitTrivia still u).1, (splitTrivia still u).2) →
          splitTrivia still u = (u, []) := by
        intro still h
        rw [hu] at h
        obtain ⟨htaken, hrest⟩ := Prod.mk.inj h
        exact Prod.ext (List.cons.inj htaken).2.symm hrest.symm
      cases inComment with
      | false =>
          have hplain : PlainBraces (c :: u) := hplain
          by_cases hspace : isSpace c = true
          · have hc : isBrace c = false := isBrace_of_isSpace hspace
            have hu' : splitTrivia false u = (u, []) := htail (by simp [splitTrivia, hspace])
            have hplain' : PlainBraces u := hplain.of_infix ⟨[c], [], by simp⟩
            exact List.forall_mem_cons.mpr ⟨hc, ih hu' hplain'⟩
          · by_cases hpercent : c = '%'
            · subst hpercent
              have hu' : splitTrivia true u = (u, []) := htail rfl
              exact List.forall_mem_cons.mpr ⟨rfl, ih hu' ⟨[], List.forall_mem_nil _, hplain⟩⟩
            · have hsolid : isSolid c = true := by simp [isSolid, hspace, hpercent]
              rw [splitTrivia_of_isSolid hsolid] at hu
              cases hu
      | true =>
          obtain ⟨t, ht, hplain⟩ := hplain
          have hc : isBrace c = false := by
            refine Bool.eq_false_iff.mpr ?_
            intro hbrace
            exact hplain.commented t c ht hbrace ⟨[], u, by simp⟩
          cases hline : isLineEnd c with
          | true =>
              have hu' : splitTrivia false u = (u, []) :=
                htail (by simp [splitTrivia, show (c == '\r' || c == '\n') = true from hline])
              have hplain' : PlainBraces u :=
                hplain.of_infix ⟨'%' :: (t ++ [c]), [], by simp⟩
              exact List.forall_mem_cons.mpr ⟨hc, ih hu' hplain'⟩
          | false =>
              have hu' : splitTrivia true u = (u, []) :=
                htail (by simp [splitTrivia, show (c == '\r' || c == '\n') = false from hline])
              have ht' : ∀ x ∈ t ++ [c], isLineEnd x = false := by
                intro x hx
                rcases List.mem_append.mp hx with hx | hx
                · exact ht x hx
                · exact List.mem_singleton.mp hx ▸ hline
              refine List.forall_mem_cons.mpr ⟨hc, ih hu' ⟨t ++ [c], ht', ?_⟩⟩
              simpa using hplain

/-- Blanks and comments hold no brace. -/
theorem balanced_of_trivia (hs : PlainBraces s) (h : Trivia s) : Balanced s := by
  refine (balanced_iff s).mpr (braceDepth_of_forall_ne ?_ 0)
  intro c hc
  have hbrace : isBrace c = false := isBrace_of_mem_trivia h hs c hc
  simpa [isBrace] using hbrace

theorem balanced_of_macroText {ns : List (Node Rule)} (hs : PlainBraces s)
    (h : grammar.Derives .tight macroText s ns) : Balanced s := by
  obtain ⟨backslash, body, _, _, rfl, hbackslash, hbody⟩ := h.exists_of_tight_seq
  obtain ⟨rfl, -⟩ := hbackslash.eq_of_lit
  have hbackslash : Balanced "\\".toList := balanced_singleton (by decide)
  refine hbackslash.append ?_
  rcases hbody.or_of_alt with hname | hany
  · exact quiet_tight.balanced_of_derives hname rfl (by decide)
  · obtain ⟨c, -, rfl, -⟩ := hany.exists_of_one
    cases hc : isBrace c with
    | false => exact balanced_singleton hc
    | true => exact absurd ⟨[], [], rfl⟩ (hs.escaped c hc)

theorem balanced_of_text {ns : List (Node Rule)} (hs : PlainBraces s)
    (h : grammar.Derives .tight (expr .text) s ns) : Balanced s := by
  obtain ⟨ahead, body, _, _, rfl, hahead, hbody⟩ := h.exists_of_tight_seq
  obtain rfl : ahead = [] := by
    cases hahead
    rfl
  rw [List.nil_append] at hs ⊢
  obtain ⟨e, he, hbody⟩ := hbody.exists_of_alts
  simp only [List.mem_cons, List.not_mem_nil, or_false] at he
  rcases he with rfl | rfl | rfl
  · exact quiet_tight.balanced_of_derives hbody rfl (by decide)
  · exact hs.balanced_of_macroText hbody
  · exact quiet_tight.balanced_of_derives hbody rfl (by decide)

theorem quiet : Quiet grammar calm (fun _ => PlainBraces) where
  part := parts
  between hs h := hs.balanced_of_trivia h
  rule := by
    intro sp r t ns hcalm hs h hbody
    by_cases htext : r = .text
    · subst htext
      exact hs.balanced_of_text h
    · by_cases hplace : r = .place
      · subst hplace
        obtain ⟨name, u, rest, _, _, rfl, -, hname, -, -⟩ := h.exists_of_seq
        obtain ⟨word, v, ahead, _, _, rfl, -, hword, -, -⟩ := hname.exists_of_seq
        obtain ⟨rfl, -⟩ := hword.eq_of_lit
        exact absurd ⟨[], v ++ ahead ++ (u ++ rest), by simp⟩ hs.placed
      · exact hbody hs (braces_expr r hcalm htext hplace)

end PlainBraces

end PictureTree
