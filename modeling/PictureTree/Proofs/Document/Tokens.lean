/-
# `Proofs.Document.Tokens` — the tokens of arguments

Between its parts a tight rule skips nothing, so what it matches can be said of the
text alone: it takes exactly some text, if what is behind does not go on with it.

    numbers, units and quantities   `takes_quantity`
    keys and values of settings     `takes_paramKey`, `takes_paramValue`
    arrows, in their braces         `takes_arrows`
    the function of a plot          `takes_bracedText`
-/
import PictureTree.Proofs.Document.Braces
import PictureTree.Proofs.Document.Pieces
import PictureTree.Proofs.Numeral.Spelling

namespace PictureTree

open PictureTree.Expr Rule Trailer

/-! ## Tight matches -/

/-- In a tight rule, an expression takes exactly a text that stands in front of another. -/
def Eats (e : Expr Rule) (t s : List Char) : Prop :=
  ∃ ns, e.run grammar.start? .tight (t ++ s) = some ⟨t, s, ns⟩

/-- No character of a class stands in front. -/
def Stops (p : CharClass) (s : List Char) : Prop := ∀ c ∈ s.head?, p.test c = false

section Tight

variable {a b e : Expr Rule} {p : CharClass} {r : Rule} {s t u : List Char}

theorem eats_lit (t s : List Char) : Eats (.lit t) t s := ⟨[], run_lit_append t s⟩

theorem Eats.seq (ha : Eats a t (u ++ s)) (hb : Eats b u s) : Eats (.seq a b) (t ++ u) s := by
  obtain ⟨ms, hm⟩ := ha
  obtain ⟨ns, hn⟩ := hb
  refine ⟨ms ++ ns, ?_⟩
  rw [List.append_assoc]
  exact run_seq_join hm hn

theorem Eats.alt (ha : Eats a t s) : Eats (.alt a b) t s := by
  obtain ⟨ns, hm⟩ := ha
  exact ⟨ns, run_alt_of_some hm⟩

theorem Eats.alt_right (ha : a.run grammar.start? .tight (t ++ s) = none) (hb : Eats b t s) :
    Eats (.alt a b) t s := by
  obtain ⟨ns, hm⟩ := hb
  exact ⟨ns, (run_alt_of_none ha).trans hm⟩

theorem Eats.opt (h : Eats e t s) : Eats (.opt e) t s := by
  obtain ⟨ns, hm⟩ := h
  exact ⟨ns, run_opt_of_some hm⟩

theorem eats_opt_nothing (h : e.run grammar.start? .tight s = none) : Eats (.opt e) [] s :=
  ⟨[], run_opt_of_none h⟩

theorem run_seq_of_eats (ha : Eats a t s) (hb : b.run grammar.start? .tight s = none) :
    (Expr.seq a b).run grammar.start? .tight (t ++ s) = none := by
  obtain ⟨ns, hm⟩ := ha
  have hb : b.run grammar.start? .tight (gap .tight s : Match Rule).rest = none := hb
  rw [run_seq_of_some hm, hb]
  rfl

theorem Stops.run_one (h : Stops p s) (sp : Spacing) :
    (Expr.one p).run grammar.start? sp s = none := by
  cases s with
  | nil => rfl
  | cons c s => simp [Expr.run, h c rfl]

theorem eats_one {c : Char} (hc : p.test c = true) (s : List Char) : Eats (.one p) [c] s :=
  ⟨[], by simp [Expr.run, hc]⟩

theorem eats_star_one (ht : ∀ c ∈ t, p.test c = true) (hs : Stops p s) :
    Eats (.star (.one p)) t s := by
  have hrest : s.takeWhile p.test = [] ∧ s.dropWhile p.test = s := by
    cases s with
    | nil => exact ⟨rfl, rfl⟩
    | cons c s =>
        have hc : p.test c = false := hs c rfl
        simp [hc]
  refine ⟨[], ?_⟩
  rw [run_star_one, List.takeWhile_append_of_pos ht, List.dropWhile_append_of_pos ht, hrest.1,
    hrest.2, List.append_nil]

theorem eats_plus_one (hne : t ≠ []) (ht : ∀ c ∈ t, p.test c = true) (hs : Stops p s) :
    Eats (plus (.one p)) t s := by
  obtain ⟨c, t, rfl⟩ := List.exists_cons_of_ne_nil hne
  have hstar : Eats (.star (.one p)) t s :=
    eats_star_one (fun d hd => ht d (List.mem_cons_of_mem _ hd)) hs
  exact (eats_one (ht c List.mem_cons_self) _).seq hstar

/-- A token takes what its expression takes. -/
theorem Eats.start? (hr : r.kind = .token) (h : Eats (expr r) t s) :
    grammar.start? r (t ++ s) = some ⟨t, s, [.mk r t []]⟩ := by
  obtain ⟨ns, hm⟩ := h
  have hspacing : r.kind.spacing = .tight := by rw [hr]; rfl
  rw [start?_eq_run, hspacing, hm, Option.map_some, hr]
  rfl

/-- A rule whose expression leaves what is behind a text has taken this text. -/
theorem start?_of_run {m : Match Rule}
    (h : (expr r).run grammar.start? r.kind.spacing (t ++ s) = some m) (hrest : m.rest = s) :
    grammar.start? r (t ++ s) = some ⟨t, s, [.mk r t (r.kind.shown m.nodes)]⟩ := by
  have hsplit := Expr.split_run grammar.splits_start? r.kind.spacing (expr r) h
  rw [hrest] at hsplit
  obtain rfl := List.append_cancel_right hsplit
  subst hrest
  rw [start?_eq_run, h]
  refine congrArg some ?_
  rw [← Match.nodes_wrap]
  rfl

end Tight

/-! ## Numbers with units -/

section Numbers

variable {n s ds : List Char}

/-- No digit and no point stands in front. -/
structure EndsNumber (s : List Char) : Prop where
  noDigit : Stops .digit s
  noPoint : s.head? ≠ some '.'

theorem EndsNumber.run_point (h : EndsNumber s) :
    (word ".").run grammar.start? .tight s = none := by
  refine Option.eq_none_iff_forall_ne_some.mpr ?_
  intro m hm
  obtain ⟨rest, hrest, -⟩ := Option.map_eq_some_iff.mp hm
  exact h.noPoint (by rw [Text.after?_eq_some.mp hrest]; rfl)

/-- The two spellings of an unsigned number. -/
abbrev unsigned : Expr Rule := .alt (seqs [.star (.one .digit), word ".", plus (.one .digit)])
  (.seq (plus (.one .digit)) (.opt (word ".")))

theorem eats_unsigned (hn : Numeral.Unsigned n) (hs : EndsNumber s) : Eats unsigned n s := by
  cases hn with
  | @fraction whole ds hwhole hds hne =>
      have hpoint : Stops .digit ('.' :: (ds ++ s)) := by
        intro c hc
        obtain rfl := Option.some.inj hc
        rfl
      have hfraction : Eats (.seq (word ".") (plus (.one .digit))) ('.' :: ds) s :=
        (eats_lit ['.'] (ds ++ s)).seq (eats_plus_one hne hds hs.noDigit)
      exact ((eats_star_one hwhole hpoint).seq hfraction).alt
  | whole hwhole hne =>
      have hpoint : (seqs [word ".", plus (.one .digit)]).run grammar.start? .tight s = none :=
        run_seq_of_none hs.run_point
      refine .alt_right (run_seq_of_eats (eats_star_one hwhole hs.noDigit) hpoint) ?_
      have h := (eats_plus_one (p := .digit) (s := [] ++ s) hne hwhole hs.noDigit).seq
        (eats_opt_nothing hs.run_point)
      rwa [List.append_nil] at h
  | @point whole hwhole hne =>
      have hpoint : Stops .digit (['.'] ++ s) := by
        intro c hc
        obtain rfl := Option.some.inj hc
        rfl
      have hdigits : (plus (.one .digit)).run grammar.start? .tight s = none :=
        run_seq_of_none (hs.noDigit.run_one .tight)
      have hfraction : (seqs [word ".", plus (.one .digit)]).run grammar.start? .tight
          (['.'] ++ s) = none :=
        run_seq_of_eats (eats_lit ['.'] s) hdigits
      refine .alt_right ?_ ?_
      · rw [List.append_assoc]
        exact run_seq_of_eats (eats_star_one hwhole hpoint) hfraction
      · exact (eats_plus_one (p := .digit) hne hwhole hpoint).seq (eats_lit ['.'] s).opt

theorem start?_number (hn : Numeral.Plain n) (hs : EndsNumber s) :
    grammar.start? .number (n ++ s) = some ⟨n, s, [.mk .number n []]⟩ := by
  refine Eats.start? rfl ?_
  cases hn with
  | unsigned hn =>
      have hsign : (Expr.one (.among ['+', '-'])).run grammar.start? .tight (n ++ s) = none := by
        obtain ⟨c, r, rfl, hc⟩ := hn.exists_cons
        have hc : CharClass.test (.among ['+', '-']) c = false := by
          refine Bool.eq_false_iff.mpr ?_
          intro h
          simp only [CharClass.test, List.contains_iff_mem, List.mem_cons, List.not_mem_nil,
            or_false] at h
          rcases h with rfl | rfl <;> exact absurd hc (by decide)
        simp [Expr.run, hc]
      exact (eats_opt_nothing hsign).seq (eats_unsigned hn hs)
  | @signed c n hc hn =>
      have hsign : Eats (.one (.among ['+', '-'])) [c] (n ++ s) := by
        refine eats_one ?_ _
        rcases hc with rfl | rfl <;> rfl
      exact hsign.opt.seq (eats_unsigned hn hs)

theorem start?_unit (u : LengthUnit) (s : List Char) :
    grammar.start? .unit (u.letters ++ s) = some ⟨u.letters, s, [.mk .unit u.letters []]⟩ := by
  refine Eats.start? rfl ⟨[], ?_⟩
  cases u <;> rfl

theorem start?_unit_eq_none (hs : Stops .letter s) : grammar.start? .unit s = none := by
  have hletters : ∀ u : LengthUnit, ∃ c v, u.letters = c :: v ∧ c.isAlpha = true := by
    intro u
    cases u <;> exact ⟨_, _, rfl, rfl⟩
  have halts : (expr .unit).run grammar.start? .tight s = none := by
    refine run_alts_eq_none ?_
    intro e he
    obtain ⟨u, -, rfl⟩ := List.mem_map.mp he
    obtain ⟨c, v, hu, hc⟩ := hletters u
    refine Option.eq_none_iff_forall_ne_some.mpr ?_
    intro m hm
    obtain ⟨rest, hrest, -⟩ := Option.map_eq_some_iff.mp hm
    have hnot : c.isAlpha = false :=
      hs c (by rw [Text.after?_eq_some.mp hrest, hu]; rfl)
    rw [hc] at hnot
    cases hnot
  have hspacing : Rule.unit.kind.spacing = .tight := rfl
  rw [start?_eq_run, hspacing, halts]
  rfl

/-- The node of a number with an optional unit. -/
def Node.ofQuantity (n : List Char) (u : Option LengthUnit) : Node Rule :=
  .mk .quantity (n ++ (u.map LengthUnit.letters).getD [])
    (.mk .number n [] :: u.toList.map fun u => .mk .unit u.letters [])

theorem start?_quantity {u : Option LengthUnit} (hn : Numeral.Plain n) (hs : EndsNumber s)
    (hletter : Stops .letter s) :
    grammar.start? .quantity (n ++ ((u.map LengthUnit.letters).getD [] ++ s))
      = some ⟨n ++ (u.map LengthUnit.letters).getD [], s, [Node.ofQuantity n u]⟩ := by
  have hspacing : Rule.quantity.kind.spacing = .tight := rfl
  have hbody : expr .quantity = .seq (.rule .number) (.opt (.rule .unit)) := rfl
  rw [start?_eq_run, hspacing, hbody]
  cases u with
  | none =>
      have hnumber : (Expr.rule .number).run grammar.start? .tight (n ++ s) = some _ :=
        start?_number hn hs
      have hunit : (Expr.opt (.rule .unit)).run grammar.start? .tight s = some (.nothing s) :=
        run_opt_of_none (start?_unit_eq_none hletter)
      have hrun := run_seq_join hnumber hunit
      rw [Option.map_none, Option.getD_none, List.nil_append, hrun]
      rfl
  | some u =>
      have hends : EndsNumber (u.letters ++ s) := by
        constructor
        · intro c hc
          cases u <;> obtain rfl := Option.some.inj hc <;> rfl
        · cases u <;> exact nofun
      have hnumber : (Expr.rule .number).run grammar.start? .tight (n ++ (u.letters ++ s))
          = some _ :=
        start?_number hn hends
      have hunit : (Expr.opt (.rule .unit)).run grammar.start? .tight (u.letters ++ s)
          = some _ :=
        run_opt_of_some (start?_unit u s)
      have hrun := run_seq_join hnumber hunit
      rw [Option.map_some, Option.getD_some, hrun]
      rfl

end Numbers

/-! ## Tokens as pieces -/

section Pieces

variable {tail t : List Char} {ps : List (List Char)}

/-- Whether a character ends a number, a unit and a name. -/
def endsToken (c : Char) : Bool := !c.isAlphanum && c != '.'

theorem endsToken_of_not_isSolid {c : Char} (hc : isSolid c = false) : endsToken c = true := by
  simp only [isSolid, isSpace, Bool.and_eq_false_iff, Bool.not_eq_false', Bool.or_eq_true,
    beq_iff_eq, bne_eq_false_iff_eq] at hc
  rcases hc with (((rfl | rfl) | rfl) | rfl) | rfl <;> rfl

/-- A text starts with a blank or a comment, or with the next solid character. -/
theorem Ahead.head? (h : Ahead tail ps t) {c : Char} (hc : c ∈ t.head?) :
    isSolid c = false ∨ next tail ps = some c := by
  obtain ⟨t, rfl⟩ : ∃ u, t = c :: u := List.head?_eq_some_iff.mp hc
  cases hsolid : isSolid c with
  | false => exact .inl rfl
  | true =>
      have hnext := h.head?_gap
      rw [gap_of_isSolid hsolid] at hnext
      exact .inr hnext.symm

/-- Where the next solid character ends a token, the first character does. -/
theorem Ahead.endsToken (h : Ahead tail ps t) (hnext : ∀ c ∈ next tail ps, endsToken c = true) :
    ∀ c ∈ t.head?, endsToken c = true := by
  intro c hc
  rcases h.head? hc with hsolid | hc
  · exact endsToken_of_not_isSolid hsolid
  · exact hnext c hc

theorem takes_quantity {n : List Char} {u : Option LengthUnit} (hn : Numeral.Plain n)
    (hnext : ∀ c ∈ next tail ps, endsToken c = true) :
    Takes tail (.rule .quantity) ((n ++ (u.map LengthUnit.letters).getD []) :: ps) ps
      (· = [Node.ofQuantity n u]) := by
  refine takes_piece ?_
  intro t ht
  have hends := ht.endsToken hnext
  have hnot : ∀ {p : CharClass}, (∀ c, p.test c = true → endsToken c = false) → Stops p t := by
    intro p hp c hc
    refine Bool.eq_false_iff.mpr ?_
    intro htest
    have := hends c hc
    rw [hp c htest] at this
    cases this
  have hdigit : Stops .digit t := by
    refine hnot ?_
    intro c hc
    have hc : c.isDigit = true := hc
    simp [PictureTree.endsToken, Char.isAlphanum, hc]
  have hletter : Stops .letter t := by
    refine hnot ?_
    intro c hc
    have hc : c.isAlpha = true := hc
    simp [PictureTree.endsToken, Char.isAlphanum, hc]
  have hpoint : t.head? ≠ some '.' := by
    intro h
    exact absurd (hends '.' h) (by decide)
  have hstart := start?_quantity (u := u) hn ⟨hdigit, hpoint⟩ hletter
  rw [← List.append_assoc] at hstart
  exact ⟨_, hstart, rfl, rfl⟩

/-! ### Names and keys -/

/-- A name is taken if no letter is next. -/
theorem takes_name {w : String} (hnext : ∀ c ∈ next tail ps, c.isAlpha = false) :
    Takes tail (name w) (w.toList :: ps) ps NoNodes := by
  have hahead : Takes tail (.notAhead (.one .letter)) ps ps NoNodes := by
    intro s hs
    have hletter : Stops .letter (gap .loose s : Match Rule).rest := by
      intro c hc
      rw [hs.head?_gap] at hc
      exact hnext c hc
    refine ⟨.nothing (gap .loose s : Match Rule).rest, ?_, hs.rest_gap, rfl⟩
    rw [Expr.run, hletter.run_one .loose]
  refine ((takes_word w).seq hahead).mono ?_
  rintro ns ⟨xs, ys, rfl, rfl, rfl⟩
  rfl

/-- A letter, and letters and digits behind it. -/
def IsKey (k : List Char) : Prop :=
  ∃ c t, k = c :: t ∧ c.isAlpha = true ∧ ∀ d ∈ t, d.isAlphanum = true

theorem takes_paramKey {k : List Char} (hk : IsKey k)
    (hnext : ∀ c ∈ next tail ps, endsToken c = true) :
    Takes tail (.rule .paramKey) (k :: ps) ps (· = [.mk .paramKey k []]) := by
  obtain ⟨c, k, rfl, hc, hk⟩ := hk
  refine takes_piece ?_
  intro t ht
  have hstop : Stops .alphanumeric t := by
    intro d hd
    have hends := ht.endsToken hnext d hd
    simp only [PictureTree.endsToken, Bool.and_eq_true, Bool.not_eq_true'] at hends
    exact hends.1
  have hkey : Eats (expr .paramKey) (c :: k) t :=
    (eats_one (p := .letter) hc (k ++ t)).seq (eats_star_one hk hstop)
  exact ⟨_, hkey.start? rfl, rfl, rfl⟩

/-! ### Values -/

/-- The value of a setting: no comma and no closing bracket stands in it but inside of groups. -/
inductive IsValue : List Char → Prop
  | nil : IsValue []
  | char {c : Char} {v : List Char} (hc : c ∉ [',', ']', '{', '}']) (hv : IsValue v) :
      IsValue (c :: v)
  | group {t v : List Char} (ht : Balanced t) (hv : IsValue v) : IsValue ('{' :: (t ++ '}' :: v))

/-- The parts of a value, each a group or a character. -/
abbrev valuePart : Expr Rule :=
  .alt (.rule .bracedText) (.one (.except [',', ']', '\x7b', '\x7d']))

theorem consumes_valuePart : Consumes (valuePart.run grammar.start? .tight) :=
  consumes_start?_of_left consuming_bounds (by decide)

/-- A value ends in front of a comma and of a closing bracket. -/
theorem IsValue.eats {v s : List Char} (hv : IsValue v) (hs : ∃ c ∈ [',', ']'], s.head? = some c) :
    Eats (expr .paramValue) v s := by
  obtain ⟨c, hc, hs⟩ := hs
  obtain ⟨s, rfl⟩ : ∃ t, s = c :: t := List.head?_eq_some_iff.mp hs
  have hparts : ∃ ns, repetitions (valuePart.run grammar.start? .tight) .tight (v ++ c :: s)
      = ⟨v, c :: s, ns⟩ := by
    induction hv with
    | nil =>
        have hopening : c ≠ '{' := by
          rintro rfl
          exact absurd hc (by decide)
        have hgroup : (Expr.rule .bracedText).run grammar.start? .tight (c :: s) = none :=
          start?_bracedText_of_ne hopening s
        have hnone : valuePart.run grammar.start? .tight (gap .tight (c :: s) : Match Rule).rest
            = none := by
          refine (run_alt_of_none hgroup).trans ?_
          have hc : c = ',' ∨ c = ']' := by simpa using hc
          rcases hc with rfl | rfl <;> rfl
        exact ⟨[], repetitions_of_none hnone⟩
    | @char d v hd hv ih =>
        obtain ⟨ns, hns⟩ := ih
        have hopening : d ≠ '{' := by
          rintro rfl
          exact hd (by decide)
        have hgroup : (Expr.rule .bracedText).run grammar.start? .tight (d :: (v ++ c :: s))
            = none :=
          start?_bracedText_of_ne hopening _
        have hone : valuePart.run grammar.start? .tight (d :: (v ++ c :: s))
            = some ⟨[d], v ++ c :: s, []⟩ := by
          refine (run_alt_of_none hgroup).trans ?_
          have hd : CharClass.test (.except [',', ']', '\x7b', '\x7d']) d = true := by
            simpa [CharClass.test] using hd
          rw [Expr.run, if_pos hd]
        refine ⟨ns, ?_⟩
        rw [List.cons_append, repetitions_tight_of_some consumes_valuePart hone, hns]
        rfl
    | @group t v ht hv ih =>
        obtain ⟨ns, hns⟩ := ih
        have hgroup : valuePart.run grammar.start? .tight ('{' :: (t ++ '}' :: (v ++ c :: s)))
            = some _ :=
          run_alt_of_some (start?_bracedText ht (v ++ c :: s))
        refine ⟨.mk .bracedText ('{' :: (t ++ ['}'])) [] :: ns, ?_⟩
        rw [List.cons_append, List.append_assoc, List.cons_append,
          repetitions_tight_of_some consumes_valuePart hgroup, hns]
        simp only [(· ++ ·), Append.append, Match.append]
        simp
  obtain ⟨ns, hns⟩ := hparts
  refine ⟨ns, ?_⟩
  have hbody : expr .paramValue = .star valuePart := rfl
  rw [hbody, run_star_tight consumes_valuePart, hns]

/-- A value and the text behind it are one piece: a blank or a comment between them would be
read as part of the value. -/
def glue (v : List Char) : List (List Char) → List (List Char)
  | [] => [v]
  | p :: ps => (v ++ p) :: ps

theorem takes_paramValue {v p : List Char} (hv : IsValue v) (hp : Solid p)
    (hends : ∃ c ∈ [',', ']'], p.head? = some c) :
    Takes tail (.rule .paramValue) (glue v (p :: ps)) (p :: ps)
      (· = [.mk .paramValue v []]) := by
  intro s hs
  obtain ⟨t, ht, hrest⟩ := hs.exists_gap
  have hends : ∃ c ∈ [',', ']'], (p ++ t).head? = some c := by
    obtain ⟨c, hc, hp⟩ := hends
    exact ⟨c, hc, by simp [hp]⟩
  have hstart := (hv.eats hends).start? rfl
  rw [← List.append_assoc] at hstart
  rw [ht]
  exact ⟨_, hstart, .cons hp hrest, rfl⟩

/-! ### Braces -/

/-- The glyphs of line ends. -/
abbrev glyphs : List Char := ['<', '>', '|', '*', '[', ']', '(', ')', 'o', 'c', 'C']

theorem isSolid_of_mem_glyphs : ∀ c ∈ glyphs, isSolid c = true := List.all_eq_true.mp rfl

/-- Glyphs, a hyphen and glyphs. -/
def IsArrows (w : List Char) : Prop :=
  ∃ left right, w = left ++ '-' :: right ∧ (∀ c ∈ left, c ∈ glyphs) ∧ ∀ c ∈ right, c ∈ glyphs

theorem IsArrows.solid {w : List Char} (hw : IsArrows w) : Solid w := by
  obtain ⟨left, right, rfl, hleft, -⟩ := hw
  cases left with
  | nil => exact ⟨_, _, rfl, rfl⟩
  | cons c left => exact ⟨_, _, rfl, isSolid_of_mem_glyphs c (hleft c List.mem_cons_self)⟩

theorem start?_arrowSpec {w s : List Char} (hw : IsArrows w) (hs : Stops (.among glyphs) s) :
    grammar.start? .arrowSpec (w ++ s) = some ⟨w, s, [.mk .arrowSpec w []]⟩ := by
  obtain ⟨left, right, rfl, hleft, hright⟩ := hw
  have hglyphs : ∀ {u : List Char}, (∀ c ∈ u, c ∈ glyphs) →
      ∀ c ∈ u, CharClass.test (.among glyphs) c = true := by
    intro u hu c hc
    exact List.contains_iff_mem.mpr (hu c hc)
  have hhyphen : Stops (.among glyphs) ('-' :: (right ++ s)) := by
    intro c hc
    obtain rfl := Option.some.inj hc
    decide
  have hrest : Eats (.seq (word "-") arrowEnd) ('-' :: right) s :=
    (eats_lit ['-'] (right ++ s)).seq (eats_star_one (hglyphs hright) hs)
  have hspec : Eats (expr .arrowSpec) (left ++ '-' :: right) s :=
    (eats_star_one (hglyphs hleft) hhyphen).seq hrest
  exact hspec.start? rfl

/-- Neither a blank nor a comment nor a closing brace is a glyph. -/
theorem Closed.stops_glyphs {v : List Char} (hv : Closed v) (s : List Char) :
    Stops (.among glyphs) (v ++ '}' :: s) := by
  intro c hc
  refine Bool.eq_false_iff.mpr ?_
  intro hglyph
  have hglyph : c ∈ glyphs := List.contains_iff_mem.mp hglyph
  have hsolid := isSolid_of_mem_glyphs c hglyph
  cases hv with
  | nil =>
      obtain rfl := Option.some.inj hc
      exact absurd hglyph (by decide)
  | space hspace hv =>
      obtain rfl := Option.some.inj hc
      simp [isSolid, hspace] at hsolid
  | comment hline hend hv =>
      obtain rfl := Option.some.inj hc
      exact absurd hsolid (by decide)

/-- Arrows with their braces. -/
def bracedArrows (u w v : List Char) : List Char := '{' :: (u ++ (w ++ (v ++ ['}'])))

/-- Arrows in their braces are one piece: what stands between the braces is read as a whole. -/
theorem takes_arrows {u w v : List Char} (hu : Closed u) (hw : IsArrows w) (hv : Closed v) :
    Takes tail (.rule .arrows) (bracedArrows u w v :: ps) ps
      (· = [.mk .arrows (bracedArrows u w v) [.mk .arrowSpec w []]]) := by
  refine takes_piece ?_
  intro t _
  have htext : bracedArrows u w v ++ t = '{' :: (u ++ (w ++ (v ++ '}' :: t))) := by
    simp [bracedArrows]
  have hopening : (word "\x7b").run grammar.start? .loose ('{' :: (u ++ (w ++ (v ++ '}' :: t))))
      = some ⟨['{'], u ++ (w ++ (v ++ '}' :: t)), []⟩ := rfl
  have harrow : (Expr.rule .arrowSpec).run grammar.start? .loose
      (gap .loose (u ++ (w ++ (v ++ '}' :: t))) : Match Rule).rest
        = some ⟨w, v ++ '}' :: t, [.mk .arrowSpec w []]⟩ := by
    obtain ⟨c, w', hcw, hc⟩ := hw.solid
    have hgap : (gap .loose (u ++ (w ++ (v ++ '}' :: t))) : Match Rule).rest
        = w ++ (v ++ '}' :: t) := by
      rw [hu.rest_gap_append, hcw, List.cons_append, gap_of_isSolid hc]
      rfl
    rw [hgap]
    exact start?_arrowSpec hw (hv.stops_glyphs t)
  have hclosing : (word "\x7d").run grammar.start? .loose
      (gap .loose (v ++ '}' :: t) : Match Rule).rest = some ⟨['}'], t, []⟩ := by
    rw [hv.rest_gap_append]
    rfl
  have hrun : (expr .arrows).run grammar.start? .loose (bracedArrows u w v ++ t) = some _ :=
    htext ▸ run_seq_join hopening (run_seq_join harrow hclosing)
  refine ⟨_, start?_of_run hrun rfl, rfl, ?_⟩
  simp [join, nodes_gap, RuleKind.shown, kind]

theorem takes_bracedText {w : List Char} (hw : Balanced w) :
    Takes tail (.rule .bracedText) (('{' :: (w ++ ['}'])) :: ps) ps
      (· = [.mk .bracedText ('{' :: (w ++ ['}'])) []]) := by
  refine takes_piece ?_
  intro t ht
  have hstart := start?_bracedText hw t
  have htext : '{' :: (w ++ '}' :: t) = '{' :: (w ++ ['}']) ++ t := by simp
  rw [htext] at hstart
  exact ⟨_, hstart, rfl, rfl⟩

end Pieces

end PictureTree
