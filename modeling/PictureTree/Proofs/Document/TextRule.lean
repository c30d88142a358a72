/-
# `Proofs.Document.TextRule` — text with a line behind it

Text is a word or a macro at a time, and never the marker of a picture.  A line
with a word does not change what the text rule matches in front of it, but for
two places: a backslash at the end, which takes the line break, and `\end` or
`\begin` with an open brace at the end, which the line may complete to a marker.
Such a text is cut short.  It is lost: no scope and no bracket ends behind it.
-/
import PictureTree.Proofs.Document.Survey

namespace PictureTree

open PictureTree.Expr Rule

/-! ## The line -/

theorem not_mem_line {word : List Char} (hword : ∀ c ∈ word, c.isAlpha = true) {c : Char}
    (hc : c.isAlpha = false) (hline : c ≠ '\n') : c ∉ '\n' :: word := by
  rintro (_ | ⟨_, h⟩)
  · exact hline rfl
  · rw [hword c h] at hc
    cases hc

/-- A word of letters, behind the texts that a survey is made for. -/
def wordTrailer (ended : Bool) (word : List Char) (hword : ∀ c ∈ word, c.isAlpha = true) :
    Trailer Rule where
  word := word
  isAlpha_word := hword
  bare := (survey ended).bare
  absent := (survey ended).absent
  lost := Rule.lost
  lost_line := by
    refine ⟨not_mem_line hword (by decide) (by decide), not_mem_line hword (by decide) (by decide),
      fun h => ?_⟩
    have hbackslash : '\\' ∈ pictureEnd := by decide
    exact not_mem_line hword (by decide) (by decide) (h.subset hbackslash)

/-! ## Texts that are cut short -/

/-- The blanks that a tight rule takes. -/
def blank : CharClass := .among [' ', '\t', '\r', '\n']

/-- A text that breaks off behind a backslash, or in front of the name of an
environment. -/
def CutShort (u : List Char) : Prop :=
  u = ['\\'] ∨ ∃ start ∈ [['e', 'n', 'd'], ['b', 'e', 'g', 'i', 'n']], ∃ b b',
    (∀ c ∈ b, blank.test c = true) ∧ (∀ c ∈ b', blank.test c = true) ∧
      u = '\\' :: (start ++ (b ++ '\x7b' :: b'))

variable {T : Trailer Rule} {call : Rule → List Char → Option (Match Rule)}

theorem mem_of_blank {c : Char} (h : blank.test c = true) : c ∈ [' ', '\t', '\r', '\n'] :=
  List.contains_iff_mem.mp h

theorem of_blank {p : Char → Bool} (h : [' ', '\t', '\r', '\n'].all p = true) {c : Char}
    (hc : blank.test c = true) : p c = true :=
  List.all_eq_true.mp h c (mem_of_blank hc)

/-- With one backslash, at its start, a text ends a picture there if at all. -/
theorem lost_of_backslash {s : List Char} (hbackslash : '\\' ∉ s) (hbrace : '\x7d' ∉ s)
    (hbracket : ']' ∉ s) (hend : ¬ ['e', 'n', 'd', 'p'] <+: s) :
    Rule.lost.holds ('\\' :: s) := by
  refine ⟨fun h => hbrace ?_, fun h => hbracket ?_, fun h => ?_⟩
  · simpa using h
  · simpa using h
  · have hname : pictureEnd = '\\' :: (['e', 'n', 'd', 'p'] ++ "spicture".toList) := rfl
    rw [hname] at h
    rcases List.infix_cons_iff.mp h with h | h
    · exact hend (List.IsPrefix.trans ⟨_, rfl⟩ (List.cons_prefix_cons.mp h).2)
    · exact hbackslash (h.subset List.mem_cons_self)

theorem CutShort.lost_append_line {word : List Char} (hword : ∀ c ∈ word, c.isAlpha = true)
    {u : List Char} (hu : CutShort u) : Rule.lost.holds (u ++ '\n' :: word) := by
  have hline : ∀ {c : Char}, c.isAlpha = false → c ≠ '\n' → c ∉ '\n' :: word :=
    not_mem_line hword
  obtain rfl | ⟨start, hstart, b, b', hb, hb', rfl⟩ := hu
  · exact lost_of_backslash (hline (by decide) (by decide)) (hline (by decide) (by decide))
      (hline (by decide) (by decide)) (by simp)
  · have hmem : ∀ {c : Char}, c.isAlpha = false → c ∉ ['\x7b', ' ', '\t', '\r', '\n'] →
        c ∉ start ++ (b ++ '\x7b' :: b') ++ '\n' :: word := by
      intro c hc hblank h
      have hletters : c ∉ start := fun h => by
        have hall : ∀ start ∈ [['e', 'n', 'd'], ['b', 'e', 'g', 'i', 'n']],
            start.all Char.isAlpha = true := by decide
        simp [List.all_eq_true.mp (hall start hstart) c h] at hc
      simp only [List.mem_append, List.mem_cons] at h
      rcases h with (h | h | h | h) | h
      · exact hletters h
      · exact hblank (List.mem_cons_of_mem _ (mem_of_blank (hb c h)))
      · exact hblank (h ▸ List.mem_cons_self)
      · exact hblank (List.mem_cons_of_mem _ (mem_of_blank (hb' c h)))
      · exact hline hc (fun h => hblank (by simp [h])) (by simpa using h)
    refine lost_of_backslash (hmem (by decide) (by decide)) (hmem (by decide) (by decide))
      (hmem (by decide) (by decide)) fun h => ?_
    -- a blank or the brace stands where the name of a picture would go on
    have hb : 'p' ∉ b := fun h => absurd (mem_of_blank (hb _ h)) (by decide)
    simp only [List.mem_cons, List.not_mem_nil, or_false] at hstart
    rcases hstart with rfl | rfl
    · cases b with
      | nil => simp at h
      | cons c b => simp_all
    · simp at h

theorem CutShort.lost {u : List Char} (hu : CutShort u) : Rule.lost.holds u := by
  have hnone : ∀ c ∈ [], Char.isAlpha c = true := by simp
  exact Rule.lost.part (a := []) (hu.lost_append_line hnone)

/-! ## What does not see the line -/

open Trailer

/-- A survey that knows nothing of the rules, for expressions without rules. -/
def bareSurvey : Survey Rule where
  bare := []
  absent := []
  lost := Rule.lost
  letters := Rule.letters
  holds_letters h := h
  consuming _ := false
  constant _ := false
  grade _ := .unknown
  known := []

theorem fits_bareSurvey : bareSurvey.Fits grammar where
  consuming _ h := by cases h
  letters := letters_bounds
  lost _ h := by cases h
  constant _ h := by cases h
  allowed _ := rfl

section Tight

variable {call : Rule → List Char → Option (Match Rule)} {e : Expr Rule}

theorem run_spaces (s : List Char) : spaces.run call .tight s
    = some ⟨s.takeWhile blank.test, s.dropWhile blank.test, []⟩ :=
  run_star_one call blank s

theorem dropWhile_blank_line : T.line.dropWhile blank.test = T.word := by
  have hstart : T.line.dropWhile blank.test = T.word.dropWhile blank.test := rfl
  rw [hstart]
  cases hword : T.word with
  | nil => rfl
  | cons c w =>
      have hc : c.isAlpha = true := T.isAlpha_word c (by rw [hword]; exact List.mem_cons_self)
      have hblank : blank.test c = false := Bool.eq_false_iff.mpr fun h => by
        have := (not_isSpace_of_isAlpha hc).1
        simp only [blank, CharClass.test, List.contains_iff_mem] at h
        simp_all [isSpace]
      exact List.dropWhile_cons_of_neg (by simp [hblank])

/-- Blanks in front of an expression: only at the end do they reach the line. -/
theorem tied_spaces_seq {u : List Char}
    (hend : u.dropWhile blank.test = [] →
      e.run call .tight [] = none ∧ e.run call .tight T.word = none)
    (h : Tied T.line (e.run call .tight (u.dropWhile blank.test))
      (e.run call .tight (u.dropWhile blank.test ++ T.line))) :
    Tied T.line ((Expr.seq spaces e).run call .tight u)
      ((Expr.seq spaces e).run call .tight (u ++ T.line)) := by
  rw [run_seq_of_some (run_spaces u), run_seq_of_some (run_spaces (u ++ T.line))]
  cases hdrop : u.dropWhile blank.test with
  | nil =>
      have hdrop' : (u ++ T.line).dropWhile blank.test = T.word := by
        rw [List.dropWhile_append, hdrop]
        exact dropWhile_blank_line
      obtain ⟨hx, hy⟩ := hend hdrop
      simp only [gap, Match.nothing, hdrop', hx, hy]
      exact tied_none
  | cons c r =>
      have hdrop' : (u ++ T.line).dropWhile blank.test = c :: r ++ T.line := by
        rw [List.dropWhile_append, hdrop]
        rfl
      have htake : (u ++ T.line).takeWhile blank.test = u.takeWhile blank.test := by
        have hu := List.takeWhile_append_dropWhile (p := blank.test) (l := u)
        rw [hdrop] at hu
        have hline : (u ++ T.line).takeWhile blank.test ++ (c :: r ++ T.line)
            = u.takeWhile blank.test ++ (c :: r ++ T.line) :=
          calc _ = u ++ T.line := by rw [← hdrop', List.takeWhile_append_dropWhile]
            _ = _ := by rw [← List.append_assoc, hu]
        exact List.append_cancel_right hline
      rw [hdrop', htake]
      rw [hdrop] at h
      exact tied_join rfl h

theorem tied_lit_seq {t : List Char} (ht : '\n' ∉ t) {u : List Char}
    (h : ∀ r, u = t ++ r → Tied T.line (e.run call .tight r) (e.run call .tight (r ++ T.line))) :
    Tied T.line ((Expr.seq (.lit t) e).run call .tight u)
      ((Expr.seq (.lit t) e).run call .tight (u ++ T.line)) := by
  have hlit : Tied T.line ((Expr.lit t).run call .tight u)
      ((Expr.lit t).run call .tight (u ++ T.line)) := tied_lit ht u
  cases hm : (Expr.lit t).run call .tight u with
  | none =>
      rw [Tied, hm] at hlit
      rw [run_seq_of_none hm, run_seq_of_none hlit]
      exact tied_none
  | some m =>
      rw [Tied, hm] at hlit
      rw [run_seq_of_some hm, run_seq_of_some hlit]
      obtain ⟨r, hr, rfl⟩ := Option.map_eq_some_iff.mp hm
      exact tied_join rfl (h r (Text.after?_eq_some.mp hr))

end Tight

section Text

variable {depth : Nat} (hlost : T.lost = Rule.lost)

theorem of_mem_takeWhile {p : Char → Bool} {s : List Char} : ∀ c ∈ s.takeWhile p, p c = true :=
  List.all_eq_true.mp List.all_takeWhile

theorem of_dropWhile_eq_nil {p : Char → Bool} {s : List Char} (h : s.dropWhile p = []) :
    ∀ c ∈ s, p c = true := by
  have hs := List.takeWhile_append_dropWhile (p := p) (l := s)
  rw [h, List.append_nil] at hs
  exact hs ▸ of_mem_takeWhile

/-- The start of an environment's marker, and the name of a picture. -/
def markerOf (start : List Char) : Expr Rule :=
  seqs [.lit ('\\' :: start), spaces, word "\x7b", spaces, word "pspicture"]

theorem tied_markerOf {call : Rule → List Char → Option (Match Rule)} (start : List Char)
    (hstart : start ∈ [['e', 'n', 'd'], ['b', 'e', 'g', 'i', 'n']]) {u : List Char}
    (hu : ¬ CutShort u) : Tied T.line ((markerOf start).run call .tight u)
      ((markerOf start).run call .tight (u ++ T.line)) := by
  have hline : ∀ start ∈ [['e', 'n', 'd'], ['b', 'e', 'g', 'i', 'n']], '\n' ∉ '\\' :: start := by
    decide
  have hbrace : T.Firm ((word "\x7b").run call .tight) :=
    Firm.lit (by decide) List.mem_cons_self (by decide)
  refine tied_lit_seq (hline start hstart) fun r hr => ?_
  refine tied_spaces_seq (fun _ =>
    ⟨run_seq_of_none hbrace.final.1, run_seq_of_none hbrace.final.2⟩) ?_
  refine tied_lit_seq (by decide) fun r' hr' => ?_
  refine tied_spaces_seq (fun hend => ?_) (tied_lit (by decide) _)
  -- only blanks behind the brace: the text is cut short
  refine absurd (.inr ⟨start, hstart, r.takeWhile blank.test, r', of_mem_takeWhile,
    of_dropWhile_eq_nil hend, ?_⟩) hu
  have hsplit := List.takeWhile_append_dropWhile (p := blank.test) (l := r)
  rw [hr'] at hsplit
  exact hr.trans (congrArg (fun r => '\\' :: (start ++ r)) hsplit.symm)

theorem held_of_grade {e : Expr Rule} (hlost : T.lost = Rule.lost)
    (he : bareSurvey.gradeOf grammar.kind .tight e = .firm ∨
      bareSurvey.gradeOf grammar.kind .tight e = .held) :
    T.Held (e.run (grammar.apply depth) .tight) := by
  have h : T.Meets .tight (e.run (grammar.apply depth) .tight)
      (bareSurvey.gradeOf grammar.kind .tight e) :=
    Survey.meets_gradeOf fits_bareSurvey (List.nil_subset _) (List.nil_subset _) hlost
      (fun _ => trivial) (fun _ hp => by cases hp) .tight e
  exact h.held he

theorem tied_reserved {call : Rule → List Char → Option (Match Rule)} {u : List Char}
    (hu : ¬ CutShort u) :
    Tied T.line (reserved.run call .tight u) (reserved.run call .tight (u ++ T.line)) := by
  have hname : Tied T.line ((name "\\endpspicture").run call .tight u)
      ((name "\\endpspicture").run call .tight (u ++ T.line)) :=
    tied_lit_seq (by decide) fun r _ => tied_notAhead (tied_one rfl r) rfl
  exact tied_alt (tied_markerOf ['e', 'n', 'd'] (by decide) hu)
    (tied_alt hname (tied_markerOf ['b', 'e', 'g', 'i', 'n'] (by decide) hu))

include hlost

theorem tied_macroText {u : List Char} (hu : T.Plain u) (hcut : ¬ CutShort u) :
    Tied T.line (macroText.run (grammar.apply depth) .tight u)
      (macroText.run (grammar.apply depth) .tight (u ++ T.line)) := by
  have hletters : T.Held ((Expr.seq (plus (.one .letter)) (.opt (word "*"))).run
      (grammar.apply depth) .tight) := held_of_grade hlost (by decide)
  refine tied_lit_seq (by decide) fun r hr => ?_
  refine tied_alt (hletters.tied (hu.of_suffix ⟨_, hr.symm⟩)) ?_
  cases r with
  | nil => exact absurd (.inl hr) hcut
  | cons c r => exact tied_some _

/-- Text does not see the line, unless it is cut short. -/
theorem tied_text {u : List Char} (hu : T.Plain u) (hcut : ¬ CutShort u) :
    Tied T.line ((expr .text).run (grammar.apply depth) .tight u)
      ((expr .text).run (grammar.apply depth) .tight (u ++ T.line)) := by
  have henv : T.Held (envMarker.run (grammar.apply depth) .tight) :=
    held_of_grade hlost (by decide)
  have hplain : T.Held (plainWord.run (grammar.apply depth) .tight) :=
    held_of_grade hlost (by decide)
  have hahead : Tied T.line ((Expr.notAhead reserved).run (grammar.apply depth) .tight u)
      ((Expr.notAhead reserved).run (grammar.apply depth) .tight (u ++ T.line)) :=
    tied_notAhead (tied_reserved hcut) rfl
  rcases run_seq_of_tied (b := alts [envMarker, macroText, plainWord]) (grammar.split_apply depth)
    hu hahead with ⟨hx, hy⟩ | ⟨m, v, ⟨hm, rfl⟩, -, hgap, hx, hy⟩ | ⟨m, n, hsp, -⟩
  · rw [expr, hx, hy]
    exact tied_none
  · obtain rfl := eq_nothing_of_run_notAhead hm
    rw [expr, hx, hy]
    refine tied_join hgap ?_
    exact tied_alt (henv.tied hu)
      (tied_alt (tied_macroText hlost hu hcut) (hplain.tied hu))
  · cases hsp

/-- Text is tied, or lost. -/
theorem steady_text :
    T.Steady .tight ((expr .text).run (grammar.apply depth) .tight) := by
  refine ⟨fun {u} hu => ?_⟩
  by_cases hcut : CutShort u
  · rw [hlost]
    exact .inr (.inr ⟨hcut.lost, hcut.lost_append_line T.isAlpha_word⟩)
  · exact .inl (tied_text hlost hu hcut)

end Text

/-! ## What text matches -/

section Found

variable {depth : Nat}

theorem apply_text_succ (s : List Char) : grammar.apply (depth + 1) .text s
    = ((expr .text).run (grammar.apply depth) .tight s).map (.wrap .token .text) := rfl

/-- Where text matches, it matches one of its forms. -/
theorem run_text_or (call : Rule → List Char → Option (Match Rule)) (s : List Char) :
    (expr .text).run call .tight s = none ∨ (expr .text).run call .tight s
      = ((alts [envMarker, macroText, plainWord]).run call .tight s).map
          (join .tight (.nothing s)) := by
  cases hm : (Expr.notAhead reserved).run call .tight s with
  | none => exact .inl (run_seq_of_none hm)
  | some m =>
      obtain rfl := eq_nothing_of_run_notAhead hm
      exact .inr (run_seq_of_some hm)

theorem run_plus_one (call : Rule → List Char → Option (Match Rule)) {p : CharClass} {c : Char}
    (hc : p.test c = true) (s : List Char) : (plus (.one p)).run call .tight (c :: s)
      = some ⟨c :: s.takeWhile p.test, s.dropWhile p.test, []⟩ := by
  have hfirst : (Expr.one p).run call .tight (c :: s) = some ⟨[c], s, []⟩ := by
    simp [Expr.run, hc]
  have hrun : (plus (.one p)).run call .tight (c :: s)
      = ((Expr.star (.one p)).run call .tight s).map (join .tight ⟨[c], s, []⟩) :=
    run_seq_of_some hfirst
  rw [hrun, run_star_one]
  rfl

theorem run_plainWord (call : Rule → List Char → Option (Match Rule)) {word : List Char}
    (hne : word ≠ []) (hword : ∀ c ∈ word, c.isAlpha = true) :
    plainWord.run call .tight word = some ⟨word, [], []⟩ := by
  let p : CharClass := .except [' ', '\t', '\r', '\n', '\\', '\x7b', '\x7d', '%']
  have hp : ∀ {c : Char}, c.isAlpha = true → p.test c = true := by
    intro c hc
    have hletterless : [' ', '\t', '\r', '\n', '\\', '\x7b', '\x7d', '%'].all
        (fun c => !c.isAlpha) = true := by decide
    simp only [p, CharClass.test, Bool.not_eq_true', List.contains_eq_mem, decide_eq_false_iff_not]
    intro hmem
    have hc' := List.all_eq_true.mp hletterless c hmem
    simp [hc] at hc'
  obtain ⟨c, w, rfl⟩ := List.exists_cons_of_ne_nil hne
  have hall : ∀ c ∈ w, p.test c = true := fun c hc => hp (hword c (List.mem_cons_of_mem _ hc))
  have htake : (w ++ []).takeWhile p.test = w ++ [] := List.takeWhile_append_of_pos hall
  have hdrop : (w ++ []).dropWhile p.test = [] := List.dropWhile_append_of_pos hall
  rw [List.append_nil] at htake hdrop
  have hrun := run_plus_one call (hp (hword c List.mem_cons_self)) w
  rw [htake, hdrop] at hrun
  exact hrun

theorem apply_text_word {word : List Char} (hne : word ≠ [])
    (hword : ∀ c ∈ word, c.isAlpha = true) :
    grammar.apply (depth + 1) .text word = some ⟨word, [], [.mk .text word []]⟩ := by
  have hreserved : reserved.run (grammar.apply depth) .tight word = none :=
    Region.run_eq_none letters_bounds (by decide) hword
  have henv : envMarker.run (grammar.apply depth) .tight word = none :=
    Region.run_eq_none letters_bounds (by decide) hword
  have hmacro : macroText.run (grammar.apply depth) .tight word = none :=
    Region.run_eq_none letters_bounds (by decide) hword
  have hahead : (Expr.notAhead reserved).run (grammar.apply depth) .tight word
      = some (.nothing word) := by
    simp [Expr.run, hreserved]
  have htext : (expr .text).run (grammar.apply depth) .tight word
      = ((alts [envMarker, macroText, plainWord]).run (grammar.apply depth) .tight word).map
          (join .tight (.nothing word)) :=
    run_seq_of_some hahead
  have halts : (alts [envMarker, macroText, plainWord]).run (grammar.apply depth) .tight word
      = some ⟨word, [], []⟩ :=
    (run_alt_of_none henv).trans ((run_alt_of_none hmacro).trans (run_plainWord _ hne hword))
  have hbody : grammar.body .text = expr .text := rfl
  have hkind : grammar.kind .text = .token := rfl
  rw [Grammar.apply, hbody, hkind, RuleKind.spacing, htext, halts]
  rfl

theorem apply_text_brace (s : List Char) : grammar.apply depth .text ('\x7b' :: s) = none := by
  cases depth with
  | zero => rfl
  | succ depth =>
      have halts : (alts [envMarker, macroText, plainWord]).run (grammar.apply depth) .tight
          ('\x7b' :: s) = none := rfl
      rw [apply_text_succ]
      rcases run_text_or (grammar.apply depth) ('\x7b' :: s) with h | h
      · rw [h]
        rfl
      · rw [h, halts]
        rfl

/-- A macro takes all letters behind its backslash. -/
theorem run_macroText (call : Rule → List Char → Option (Match Rule)) {c : Char}
    {name rest : List Char} (hname : (c :: name).all Char.isAlpha = true)
    (hrest : ∀ d ∈ rest.head?, d.isAlpha = false ∧ d ≠ '*') :
    macroText.run call .tight ('\\' :: (c :: name ++ rest)) = some ⟨'\\' :: c :: name, rest, []⟩ := by
  have hname : ∀ c' ∈ c :: name, CharClass.letter.test c' = true := List.all_eq_true.mp hname
  have hletter : ∀ c' ∈ name, CharClass.letter.test c' = true := fun c' hc =>
    hname c' (List.mem_cons_of_mem _ hc)
  obtain ⟨htake, hdrop, hstar⟩ : rest.takeWhile CharClass.letter.test = [] ∧
      rest.dropWhile CharClass.letter.test = rest ∧ Text.after? "*".toList rest = none := by
    cases rest with
    | nil => exact ⟨rfl, rfl, rfl⟩
    | cons d rest =>
        obtain ⟨hd, hstar⟩ := hrest d rfl
        have hd : ¬ CharClass.letter.test d = true := by simp [CharClass.test, hd]
        exact ⟨List.takeWhile_cons_of_neg hd, List.dropWhile_cons_of_neg hd,
          if_neg (Ne.symm hstar)⟩
  have hletters := run_plus_one call (p := .letter) (hname c List.mem_cons_self) (name ++ rest)
  rw [List.takeWhile_append_of_pos hletter, List.dropWhile_append_of_pos hletter, htake, hdrop,
    List.append_nil] at hletters
  have hopt : (Expr.opt (Expr.word "*")).run call .tight rest = some (.nothing rest) :=
    run_opt_of_none (by rw [Expr.word, Expr.run, hstar]; rfl)
  have hmacro : (Expr.seq (plus (.one .letter)) (.opt (Expr.word "*"))).run call .tight
      (c :: name ++ rest) = ((Expr.opt (Expr.word "*")).run call .tight rest).map
        (join .tight ⟨c :: name, rest, []⟩) :=
    run_seq_of_some hletters
  rw [hopt] at hmacro
  have hbackslash : macroText.run call .tight ('\\' :: (c :: name ++ rest))
      = ((Expr.alt (.seq (plus (.one .letter)) (.opt (Expr.word "*"))) (.one .any)).run call .tight
          (c :: name ++ rest)).map (join .tight ⟨['\\'], c :: name ++ rest, []⟩) :=
    run_seq_of_some rfl
  rw [hbackslash, run_alt_of_some hmacro]
  show some (Match.mk ('\\' :: (c :: name ++ [])) rest []) = _
  rw [List.append_nil]

theorem apply_text_cutShort {s : List Char} (hs : CutShort s) :
    grammar.apply depth .text s = none ∨ ∃ m, grammar.apply depth .text s = some m ∧
      ∃ b b', (∀ c ∈ b, blank.test c = true) ∧ (∀ c ∈ b', blank.test c = true) ∧
        m.rest = b ++ '\x7b' :: b' := by
  cases depth with
  | zero => exact .inl rfl
  | succ depth =>
      rw [apply_text_succ]
      rcases run_text_or (grammar.apply depth) s with h | h
      · exact .inl (by rw [h]; rfl)
      have henv : envMarker.run (grammar.apply depth) .tight s = none :=
        Region.run_eq_none fits_bareSurvey.lost (by decide) hs.lost
      obtain rfl | ⟨start, hstart, b, b', hb, hb', rfl⟩ := hs
      · exact .inl (by rw [h]; rfl)
      · have hhead : ∀ d ∈ (b ++ '\x7b' :: b').head?, d.isAlpha = false ∧ d ≠ '*' := by
          intro d hd
          cases b with
          | nil =>
              obtain rfl := Option.some.inj hd
              decide
          | cons c b =>
              obtain rfl := Option.some.inj hd
              have hc : (!c.isAlpha && c != '*') = true :=
                of_blank (p := fun c => !c.isAlpha && c != '*') (by decide)
                  (hb c List.mem_cons_self)
              simpa using hc
        obtain ⟨m, hm, hrest⟩ : ∃ m, macroText.run (grammar.apply depth) .tight
            ('\\' :: (start ++ (b ++ '\x7b' :: b'))) = some m ∧ m.rest = b ++ '\x7b' :: b' := by
          simp only [List.mem_cons, List.not_mem_nil, or_false] at hstart
          rcases hstart with rfl | rfl
          · exact ⟨_, run_macroText _ (by decide) hhead, rfl⟩
          · exact ⟨_, run_macroText _ (by decide) hhead, rfl⟩
        have halts : (alts [envMarker, macroText, plainWord]).run (grammar.apply depth) .tight
            ('\\' :: (start ++ (b ++ '\x7b' :: b'))) = some m :=
          (run_alt_of_none henv).trans (run_alt_of_some hm)
        rw [halts] at h
        refine .inr ⟨_, congrArg (Option.map (Match.wrap .token .text)) h, b, b', hb, hb', ?_⟩
        exact hrest

end Found

end PictureTree
