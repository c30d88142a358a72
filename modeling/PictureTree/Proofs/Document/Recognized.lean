/-
# `Proofs.Document.Recognized` — every shape command is a written one

Written commands are told without the grammar.  Here the grammar's own commands are
taken apart: what a rule has taken is spelled with pieces, and behind them stands what
the rule has left.

    Spells f s t    the pieces that are next in `t` are next in `s` behind those of `f`

So a source is a shape command if and only if it consists of the pieces of a written
command, `ofSource?_eq_shape_iff`.
-/
import PictureTree.Proofs.Document.ShapeCommands

namespace PictureTree

open PictureTree.Expr Rule Trailer

theorem Entry.exists_more_eq_cons (es : List Entry) (p : List Char) (ps : List (List Char)) :
    ∃ q qs, Entry.more es (p :: ps) = q :: qs := by
  cases es with
  | nil => exact ⟨_, _, rfl⟩
  | cons e es => exact ⟨_, _, rfl⟩

theorem Operand.exists_closing_eq_cons (trailing : Bool) (ps : List (List Char)) :
    ∃ q qs, Operand.closing trailing ps = q :: qs := by
  cases trailing <;> exact ⟨_, _, rfl⟩

/-- The rule of the operands in a slot. -/
def Slot.rule : Slot → Rule
  | .once r | .optional r | .many r => r

theorem ShapeCommand.rule_mem_rules (c : ShapeCommand) :
    ∀ slot ∈ c.slots, slot.rule ∈ Operand.rules := by
  have hall : (c.slots.all fun slot => Operand.rules.contains slot.rule) = true := by
    cases c <;> rfl
  intro slot hslot
  exact List.contains_iff_mem.mp (List.all_eq_true.mp hall slot hslot)

/-! ## Spelling -/

namespace Ahead

variable {tail p s t : List Char} {ps : List (List Char)}

/-- A gap in front of the pieces may be longer. -/
theorem of_gap (h : Ahead tail ps (gap .loose s : Match Rule).rest) : Ahead tail ps s := by
  cases ps with
  | nil => exact ⟨[], s, rfl, .nil .nil, (gap_rest_gap s).symm.trans h.gap_nil⟩
  | cons p ps =>
      obtain ⟨t, v, hrest, hspread, htail⟩ := h
      have hne : (gap .loose s : Match Rule).rest ≠ [] := by
        rw [hrest]
        cases hspread with
        | cons hu hp ht =>
            obtain ⟨c, p, rfl, -⟩ := hp
            simp
      have hsplit : (gap .loose s : Match Rule).taken ++ (t ++ v) = s := hrest ▸ split_gap .loose s
      refine ⟨(gap .loose s : Match Rule).taken ++ t, v, ?_, ?_, htail⟩
      · rw [List.append_assoc, hsplit]
      · exact hspread.closed_append (closed_of_gap hne)

/-- The same pieces are next in front of any text that differs in blanks and comments only. -/
theorem congr_tail {tail' : List Char} (h : Ahead tail ps s)
    (htail : (gap .loose tail : Match Rule).rest = (gap .loose tail' : Match Rule).rest) :
    Ahead tail' ps s := by
  obtain ⟨t, v, rfl, hspread, hv⟩ := h
  exact ⟨t, v, rfl, hspread, hv.trans htail⟩

end Ahead

/-- Whatever pieces are next in the second text, they are next in the first one behind others. -/
def Spells (f : List (List Char) → List (List Char)) (s t : List Char) : Prop :=
  ∀ tail ps, Ahead tail ps t → Ahead tail (f ps) s

/-- An expression of a phrase matches behind a gap. -/
def Reads (e : Expr Rule) (s : List Char) (m : Match Rule) : Prop :=
  e.run grammar.start? .loose (gap .loose s : Match Rule).rest = some m

section Spelling

variable {f g : List (List Char) → List (List Char)} {a b e : Expr Rule} {r : Rule}
  {s t u : List Char} {m : Match Rule}

theorem Spells.trans (hf : Spells f s t) (hg : Spells g t u) : Spells (fun ps => f (g ps)) s u :=
  fun tail ps h => hf tail (g ps) (hg tail ps h)

theorem spells_gap (s : List Char) : Spells id s (gap .loose s : Match Rule).rest :=
  fun _ _ h => h.of_gap

theorem spells_gap_rest (s : List Char) : Spells id (gap .loose s : Match Rule).rest s :=
  fun _ _ h => h.rest_gap

/-- A gap ends at a solid character. -/
theorem solid_of_gap {p : List Char} (h : p ++ t = (gap .loose s : Match Rule).rest)
    (hne : p ≠ []) : Solid p := by
  obtain ⟨c, p, rfl⟩ := List.exists_cons_of_ne_nil hne
  refine ⟨c, p, rfl, isSolid_of_head_gap (s := s) ?_⟩
  rw [← h]
  rfl

namespace Reads

theorem split (h : Reads e s m) : m.taken ++ m.rest = (gap .loose s : Match Rule).rest :=
  Expr.split_run grammar.splits_start? .loose e h

theorem derives (h : Reads e s m) : grammar.Derives .loose e m.taken m.nodes :=
  Grammar.derives_run_start? h

/-- What is taken at once is a piece. -/
theorem spells (h : Reads e s m) (hne : m.taken ≠ []) : Spells (m.taken :: ·) s m.rest := by
  intro tail ps hps
  refine Ahead.of_gap ?_
  rw [← h.split]
  exact .cons (solid_of_gap h.split hne) hps

theorem word {w : String} (h : Reads (word w) s m) (hne : w.toList ≠ []) :
    Spells (w.toList :: ·) s m.rest := by
  have htaken := h.derives.eq_of_lit.1
  rw [← htaken] at hne ⊢
  exact h.spells hne

/-! ### Taking matches apart -/

theorem seq (h : Reads (.seq a b) s m) :
    ∃ k n, Reads a s k ∧ Reads b k.rest n ∧ n.rest = m.rest := by
  rw [Reads, run_seq] at h
  obtain ⟨k, hk, hm⟩ := Option.bind_eq_some_iff.mp h
  obtain ⟨n, hn, rfl⟩ := Option.map_eq_some_iff.mp hm
  exact ⟨k, n, hk, hn, rfl⟩

theorem opt (h : Reads (.opt e) s m) : Reads e s m ∨ Spells id s m.rest := by
  obtain rfl := Option.some.inj h
  cases hm : e.run grammar.start? .loose (gap .loose s : Match Rule).rest with
  | some m => exact .inl hm
  | none => exact .inr (spells_gap s)

/-- What holds of the two ends of every repetition holds of the two ends of all. -/
theorem star {C : List Char → List Char → Prop} (h : Reads (.star e) s m)
    (he : (Region.empty consuming).left e = true) (hself : ∀ s, C s s)
    (hgap : ∀ s, C s (gap .loose s : Match Rule).rest)
    (hmore : ∀ s t m, Reads e s m → C m.rest t → C s t) : C s m.rest := by
  have hconsumes : Consumes (e.run grammar.start? .loose) :=
    consumes_start?_of_left consuming_bounds he
  have hall : ∀ s, C s (repetitions (e.run grammar.start? .loose) .loose s).rest := by
    intro s
    induction hn : s.length using Nat.strongRecOn generalizing s with
    | ind n ih =>
        cases hk : e.run grammar.start? .loose (gap .loose s : Match Rule).rest with
        | none =>
            rw [repetitions_of_none hk]
            exact hself s
        | some k =>
            have hshort : k.rest.length < n := by
              have hlength := (gap_suffix (ρ := Rule) .loose s).length_le
              have := hconsumes hk
              omega
            rw [repetitions_of_some hconsumes hk]
            exact hmore s _ k hk (ih k.rest.length hshort k.rest rfl)
  cases hk : e.run grammar.start? .loose (gap .loose s : Match Rule).rest with
  | none =>
      rw [Reads, run_star_of_none hk] at h
      obtain rfl := Option.some.inj h
      exact hgap s
  | some k =>
      have hs := hall s
      rw [repetitions_of_some hconsumes hk] at hs
      rw [Reads, run_star_of_some hk] at h
      obtain rfl := Option.some.inj h
      exact hs

theorem alt (h : Reads (.alt a b) s m) : Reads a s m ∨ Reads b s m := by
  cases hm : a.run grammar.start? .loose (gap .loose s : Match Rule).rest with
  | some k => exact .inl (hm.trans ((run_alt_of_some hm).symm.trans h))
  | none => exact .inr ((run_alt_of_none hm).symm.trans h)

theorem alts {es : List (Expr Rule)} (h : Reads (alts es) s m) : ∃ e ∈ es, Reads e s m := by
  induction es with
  | nil =>
      obtain ⟨c, hc, -⟩ := h.derives.exists_of_one
      cases hc
  | cons e es ih =>
      cases es with
      | nil => exact ⟨e, List.mem_cons_self, h⟩
      | cons e' es =>
          rcases h.alt with h | h
          · exact ⟨e, List.mem_cons_self, h⟩
          · obtain ⟨e'', he, h⟩ := ih h
            exact ⟨e'', List.mem_cons_of_mem _ he, h⟩

theorem rule (h : Reads (.rule r) s m) (hr : r.kind.spacing = .loose) :
    ∃ k, Reads (expr r) s k ∧ k.rest = m.rest := by
  rw [Reads, Expr.run, start?_eq_run, hr] at h
  obtain ⟨k, hk, rfl⟩ := Option.map_eq_some_iff.mp h
  exact ⟨k, hk, rfl⟩

/-- The text of a tight rule. -/
theorem token (h : Reads (.rule r) s m) (hr : r.kind.spacing = .tight) :
    ∃ ns, grammar.Derives .tight (expr r) m.taken ns := by
  obtain ⟨ns, hns, -⟩ := h.derives.exists_of_rule
  have hspacing : (grammar.kind r).spacing = .tight := hr
  rw [hspacing] at hns
  exact ⟨ns, hns⟩

/-! ## Operands -/

theorem measure (h : Reads (.rule .quantity) s m) :
    ∃ q : Measure, Spells (q.text :: ·) s m.rest := by
  obtain ⟨ns, hns⟩ := h.token rfl
  obtain ⟨number, unit, _, _, htaken, hnumber, hunit⟩ := hns.exists_of_tight_seq
  obtain ⟨_, hnumber, -⟩ := hnumber.exists_of_rule
  have hplain : Numeral.Plain number := plain_of_derives hnumber
  have hne : m.taken ≠ [] := by
    obtain ⟨c, r, rfl, -⟩ := hplain.exists_cons
    rw [htaken]
    exact List.cons_ne_nil _ _
  rcases hunit.or_of_opt with ⟨rfl, -⟩ | hunit
  · refine ⟨⟨number, none, hplain⟩, ?_⟩
    have htext : Measure.text ⟨number, none, hplain⟩ = m.taken := htaken.symm
    rw [htext]
    exact h.spells hne
  · obtain ⟨_, hunit, -⟩ := hunit.exists_of_rule
    obtain ⟨u, rfl⟩ := exists_unit_of_derives hunit
    refine ⟨⟨number, some u, hplain⟩, ?_⟩
    have htext : Measure.text ⟨number, some u, hplain⟩ = m.taken := htaken.symm
    rw [htext]
    exact h.spells hne

/-- A pair of measures with a word between them. -/
theorem pair {w : String} (h : Reads (seqs [.rule .quantity, Expr.word w, .rule .quantity]) s m)
    (hne : w.toList ≠ []) :
    ∃ x y : Measure, Spells (fun ps => x.text :: w.toList :: y.text :: ps) s m.rest := by
  obtain ⟨k, n, hx, h, hrest⟩ := h.seq
  obtain ⟨k', n', hw, hy, hrest'⟩ := h.seq
  obtain ⟨x, hx⟩ := hx.measure
  obtain ⟨y, hy⟩ := hy.measure
  rw [hrest', hrest] at hy
  exact ⟨x, y, hx.trans ((hw.word hne).trans hy)⟩

theorem position (h : Reads (.rule .coord) s m) :
    ∃ p : Position, Spells (fun ps => p.before ps) s m.rest := by
  obtain ⟨k, h, hrest⟩ := h.rule rfl
  obtain ⟨k₁, n₁, hopening, h, hrest₁⟩ := h.seq
  obtain ⟨k₂, n₂, hpair, hclosing, hrest₂⟩ := h.seq
  have hopening := hopening.word (by decide)
  have hclosing := hclosing.word (by decide)
  rw [hrest₂, hrest₁, hrest] at hclosing
  rcases hpair.opt with hpair | hgap
  · rcases hpair.alt with hpolar | hcartesian
    · obtain ⟨k₃, hpair, hrest₃⟩ := hpolar.rule rfl
      obtain ⟨r, a, hpair⟩ := pair hpair (by decide)
      rw [hrest₃] at hpair
      exact ⟨.polar r a, hopening.trans (hpair.trans hclosing)⟩
    · obtain ⟨k₃, hpair, hrest₃⟩ := hcartesian.rule rfl
      obtain ⟨x, y, hpair⟩ := pair hpair (by decide)
      rw [hrest₃] at hpair
      exact ⟨.cartesian x y, hopening.trans (hpair.trans hclosing)⟩
  · exact ⟨.origin, hopening.trans (hgap.trans hclosing)⟩

/-! ### Settings -/

theorem key (h : Reads (.rule .paramKey) s m) :
    ∃ k, IsKey k ∧ Spells (k :: ·) s m.rest := by
  obtain ⟨ns, hns⟩ := h.token rfl
  obtain ⟨first, rest, _, _, htaken, hfirst, hrest⟩ := hns.exists_of_tight_seq
  obtain ⟨c, hc, rfl, -⟩ := hfirst.exists_of_one
  refine ⟨m.taken, ⟨c, rest, htaken, hc, hrest.forall_of_tight_star⟩, h.spells ?_⟩
  rw [htaken]
  exact List.cons_ne_nil _ _

/-- The parts of a value, as many as there are, and what is behind them. -/
theorem isValue_repetitions (s : List Char) :
    IsValue (repetitions (valuePart.run grammar.start? .tight) .tight s).taken ∧
      valuePart.run grammar.start? .tight
        (repetitions (valuePart.run grammar.start? .tight) .tight s).rest = none := by
  induction hn : s.length using Nat.strongRecOn generalizing s with
  | ind n ih =>
      cases hm : valuePart.run grammar.start? .tight s with
      | none =>
          rw [repetitions_of_none (show valuePart.run grammar.start? .tight
            (gap .tight s : Match Rule).rest = none from hm)]
          exact ⟨.nil, hm⟩
      | some m =>
          have hshort : m.rest.length < n := hn ▸ consumes_valuePart hm
          obtain ⟨hvalue, hnone⟩ := ih m.rest.length hshort m.rest rfl
          have hsplit : m.taken ++ m.rest = s := Expr.split_run grammar.splits_start? .tight _ hm
          rw [repetitions_tight_of_some consumes_valuePart hm]
          refine ⟨?_, hnone⟩
          rw [Match.taken_append]
          cases hgroup : (Expr.rule .bracedText).run grammar.start? .tight s with
          | some k =>
              obtain rfl : k = m := Option.some.inj ((run_alt_of_some hgroup).symm.trans hm)
              obtain ⟨t, ht, hs⟩ := exists_of_start?_bracedText hgroup
              have htaken : k.taken = '{' :: (t ++ ['}']) := by
                rw [hs] at hsplit
                refine (List.append_left_inj k.rest).mp ?_
                rw [hsplit]
                simp
              have h := IsValue.group ht hvalue
              rw [htaken]
              simpa using h
          | none =>
              have hone := (run_alt_of_none hgroup).symm.trans hm
              cases s with
              | nil => cases hone
              | cons c s =>
                  obtain ⟨hc, rfl⟩ : CharClass.test (.except [',', ']', '\x7b', '\x7d']) c = true ∧
                      _ = m := by
                    simpa [Expr.run] using hone
                  exact .char (by simpa [CharClass.test] using hc) hvalue

/-- No gap is behind a value, which ends at a comma, a bracket or a brace. -/
theorem gap_of_valuePart {t : List Char} (h : valuePart.run grammar.start? .tight t = none) :
    (gap .loose t : Match Rule).rest = t := by
  cases t with
  | nil => rfl
  | cons c t =>
      have hone : (Expr.one (.except [',', ']', '\x7b', '\x7d'])).run grammar.start? .tight (c :: t)
          = none := by
        cases hgroup : (Expr.rule .bracedText).run grammar.start? .tight (c :: t) with
        | none => exact (run_alt_of_none hgroup).symm.trans h
        | some k => exact absurd ((run_alt_of_some hgroup).symm.trans h) nofun
      have hc : c ∈ [',', ']', '{', '}'] := by
        by_contra hc
        have htest : CharClass.test (.except [',', ']', '\x7b', '\x7d']) c = true := by
          simpa [CharClass.test] using hc
        rw [Expr.run, if_pos htest] at hone
        cases hone
      have hsolid : isSolid c = true := by
        have hends : ∀ c ∈ [',', ']', '{', '}'], isSolid c = true := List.all_eq_true.mp rfl
        exact hends c hc
      rw [gap_of_isSolid hsolid]
      rfl

theorem value (h : Reads (.rule .paramValue) s m) : ∃ v, IsValue v ∧
    ∀ tail p ps, Ahead tail (p :: ps) m.rest → Ahead tail (glue v (p :: ps)) s := by
  have hspacing : Rule.paramValue.kind.spacing = .tight := rfl
  have hbody : expr .paramValue = .star valuePart := rfl
  have hsplit := h.split
  obtain ⟨hvalue, hnone⟩ := isValue_repetitions (gap .loose s : Match Rule).rest
  rw [Reads, Expr.run, start?_eq_run, hspacing, hbody, run_star_tight consumes_valuePart] at h
  obtain ⟨k, hk⟩ : ∃ k, repetitions (valuePart.run grammar.start? .tight) .tight
      (gap .loose s : Match Rule).rest = k := ⟨_, rfl⟩
  rw [hk] at h hvalue hnone
  obtain rfl := Option.some.inj h
  refine ⟨k.taken, hvalue, ?_⟩
  intro tail p ps hps
  have hps : Ahead tail (p :: ps) k.rest := hps
  have hsplit : k.taken ++ k.rest = (gap .loose s : Match Rule).rest := hsplit
  obtain ⟨t, ht, hrest⟩ := hps.exists_gap
  rw [gap_of_valuePart hnone] at ht
  rw [ht, ← List.append_assoc] at hsplit
  have hne : k.taken ++ p ≠ [] := by
    obtain ⟨c, p, rfl, -⟩ := hps.solid
    simp
  refine Ahead.of_gap ?_
  rw [← hsplit]
  exact .cons (solid_of_gap hsplit hne) hrest

theorem entry (h : Reads (.rule .param) s m) :
    ∃ e : Entry, ∀ tail p ps, Ahead tail (p :: ps) m.rest → Ahead tail (e.before (p :: ps)) s := by
  obtain ⟨k, h, hrest⟩ := h.rule rfl
  obtain ⟨k₁, n₁, hkey, h, hrest₁⟩ := h.seq
  obtain ⟨key, hkey, hspells⟩ := hkey.key
  rw [← hrest, ← hrest₁]
  rcases h.opt with h | hgap
  · obtain ⟨k₂, n₂, hequals, hvalue, hrest₂⟩ := h.seq
    obtain ⟨v, hv, hvalue⟩ := hvalue.value
    have hequals := hequals.word (by decide)
    refine ⟨⟨key, some v, hkey, ?_⟩, ?_⟩
    · rintro _ hv'
      obtain rfl := Option.some.inj hv'
      exact hv
    · intro tail p ps hps
      rw [← hrest₂] at hps
      exact hspells _ _ (hequals _ _ (hvalue tail p ps hps))
  · refine ⟨⟨key, none, hkey, nofun⟩, ?_⟩
    intro tail p ps hps
    exact hspells _ _ (hgap _ _ hps)

/-- Settings with a comma in front of each. -/
theorem more (h : Reads (.star (.seq (Expr.word ",") (.rule .param))) s m) :
    ∃ es : List Entry, ∀ tail p ps,
      Ahead tail (p :: ps) m.rest → Ahead tail (Entry.more es (p :: ps)) s := by
  let C (s t : List Char) : Prop := ∃ es : List Entry, ∀ tail p ps,
    Ahead tail (p :: ps) t → Ahead tail (Entry.more es (p :: ps)) s
  refine h.star (C := C) (by decide) ?_ ?_ ?_
  · intro s
    exact ⟨[], fun tail p ps hps => hps⟩
  · intro s
    exact ⟨[], fun tail p ps hps => hps.of_gap⟩
  · rintro s t m hm ⟨es, hes⟩
    obtain ⟨k, n, hcomma, hentry, hrest⟩ := hm.seq
    obtain ⟨e, he⟩ := hentry.entry
    have hcomma := hcomma.word (by decide)
    refine ⟨e :: es, ?_⟩
    intro tail p ps hps
    have hmore := hes tail p ps hps
    obtain ⟨q, qs, hq⟩ := Entry.exists_more_eq_cons es p ps
    rw [hq, ← hrest] at hmore
    have hspells := hcomma _ _ (he tail q qs hmore)
    rw [← hq] at hspells
    exact hspells

/-- Settings in brackets. -/
theorem settings (h : Reads (.rule .params) s m) :
    ∃ es trailing, Spells (fun ps => (Operand.params es trailing).before ps) s m.rest := by
  obtain ⟨k, h, hrest⟩ := h.rule rfl
  obtain ⟨k₁, n₁, hopening, h, hrest₁⟩ := h.seq
  obtain ⟨k₂, n₂, hlist, hclosing, hrest₂⟩ := h.seq
  obtain ⟨k₃, n₃, hentries, hcomma, hrest₃⟩ := hlist.seq
  have hopening := hopening.word (by decide)
  have hclosing := hclosing.word (by decide)
  rw [hrest₂, hrest₁, hrest] at hclosing
  have htrailing : ∃ trailing, Spells (Operand.closing trailing) k₃.rest m.rest := by
    rcases hcomma.opt with hcomma | hgap
    · have hcomma := hcomma.word (by decide)
      rw [hrest₃] at hcomma
      exact ⟨true, hcomma.trans hclosing⟩
    · rw [hrest₃] at hgap
      exact ⟨false, hgap.trans hclosing⟩
  obtain ⟨trailing, htrailing⟩ := htrailing
  rcases hentries.opt with hentries | hgap
  · obtain ⟨k₄, n₄, hfirst, hmore, hrest₄⟩ := hentries.seq
    obtain ⟨e, he⟩ := hfirst.entry
    obtain ⟨es, hes⟩ := hmore.more
    refine ⟨e :: es, trailing, ?_⟩
    intro tail ps hps
    have hbehind := htrailing tail ps hps
    obtain ⟨p, qs, hp⟩ := Operand.exists_closing_eq_cons trailing ps
    rw [hp, ← hrest₄] at hbehind
    obtain ⟨q, qs', hq⟩ := Entry.exists_more_eq_cons es p qs
    have hspells := he tail q qs' (hq ▸ hes tail p qs hbehind)
    rw [← hq, ← hp] at hspells
    exact hopening _ _ hspells
  · refine ⟨[], trailing, ?_⟩
    exact hopening.trans (hgap.trans htrailing)

/-! ### Braces -/

theorem isArrows_of_derives {t : List Char} {ns : List (Node Rule)}
    (h : grammar.Derives .tight (expr .arrowSpec) t ns) : IsArrows t := by
  have hglyphs : ∀ {u : List Char}, (∀ c ∈ u, CharClass.test (.among glyphs) c = true) →
      ∀ c ∈ u, c ∈ glyphs := by
    intro u hu c hc
    exact List.contains_iff_mem.mp (hu c hc)
  obtain ⟨left, rest, _, _, rfl, hleft, hrest⟩ := h.exists_of_tight_seq
  obtain ⟨hyphen, right, _, _, rfl, hhyphen, hright⟩ := hrest.exists_of_tight_seq
  obtain ⟨rfl, -⟩ := hhyphen.eq_of_lit
  exact ⟨left, right, rfl, hglyphs hleft.forall_of_tight_star, hglyphs hright.forall_of_tight_star⟩

theorem arrowed (h : Reads (.rule .arrows) s m) :
    ∃ a : Arrowed, Spells (fun ps => bracedArrows a.left a.arrows a.right :: ps) s m.rest := by
  obtain ⟨k, h, hrest⟩ := h.rule rfl
  obtain ⟨k₁, n₁, hopening, h, hrest₁⟩ := h.seq
  obtain ⟨k₂, n₂, hspec, hclosing, hrest₂⟩ := h.seq
  obtain ⟨ns, hns⟩ := hspec.token rfl
  have hopened := hopening.split
  rw [hopening.derives.eq_of_lit.1] at hopened
  have hclosed := hclosing.split
  rw [hclosing.derives.eq_of_lit.1, hrest₂, hrest₁, hrest] at hclosed
  have hspecified := hspec.split
  have harrows := isArrows_of_derives hns
  have hleft : Closed (gap .loose k₁.rest : Match Rule).taken := by
    refine closed_of_gap ?_
    rw [← hspecified]
    obtain ⟨c, w, hw, -⟩ := harrows.solid
    rw [hw]
    simp
  have hright : Closed (gap .loose k₂.rest : Match Rule).taken := by
    refine closed_of_gap ?_
    rw [← hclosed]
    exact List.cons_ne_nil _ _
  refine ⟨⟨_, k₂.taken, _, harrows, hleft, hright⟩, ?_⟩
  intro tail ps hps
  refine Ahead.of_gap ?_
  have htext : (gap .loose s : Match Rule).rest
      = bracedArrows (gap .loose k₁.rest : Match Rule).taken k₂.taken
          (gap .loose k₂.rest : Match Rule).taken ++ m.rest := by
    calc (gap .loose s : Match Rule).rest
        = '{' :: k₁.rest := hopened.symm
      _ = '{' :: ((gap .loose k₁.rest : Match Rule).taken ++ (k₂.taken ++ k₂.rest)) := by
          rw [hspecified, split_gap]
      _ = '{' :: ((gap .loose k₁.rest : Match Rule).taken ++ (k₂.taken ++
            ((gap .loose k₂.rest : Match Rule).taken ++ '}' :: m.rest))) := by
          rw [show '}' :: m.rest = _ from hclosed, split_gap]
      _ = _ := by simp [bracedArrows]
  rw [htext]
  exact .cons ⟨_, _, rfl, rfl⟩ hps

theorem function (h : Reads (.rule .bracedText) s m) :
    ∃ t, Balanced t ∧ Spells (('{' :: (t ++ ['}'])) :: ·) s m.rest := by
  obtain ⟨t, ht, hs⟩ := exists_of_start?_bracedText h
  refine ⟨t, ht, ?_⟩
  intro tail ps hps
  refine Ahead.of_gap ?_
  have htext : (gap .loose s : Match Rule).rest = '{' :: (t ++ ['}']) ++ m.rest := by
    rw [hs]
    simp
  rw [htext]
  exact .cons ⟨_, _, rfl, rfl⟩ hps

/-- What the rule of an operand takes is an operand. -/
theorem operand (h : Reads (.rule r) s m) (hr : r ∈ Operand.rules) :
    ∃ o : Operand, o.rule = r ∧ Spells (fun ps => o.before ps) s m.rest := by
  simp only [Operand.rules, List.mem_cons, List.not_mem_nil, or_false] at hr
  rcases hr with rfl | rfl | rfl | rfl | rfl | rfl
  · obtain ⟨k, hstar, hrest⟩ := h.rule rfl
    have hstar : Reads (Expr.word "*") s k := hstar
    rw [← hrest]
    exact ⟨.star, rfl, hstar.word (by decide)⟩
  · obtain ⟨es, trailing, hspells⟩ := h.settings
    exact ⟨.params es trailing, rfl, hspells⟩
  · obtain ⟨a, hspells⟩ := h.arrowed
    exact ⟨.arrows a, rfl, hspells⟩
  · obtain ⟨p, hspells⟩ := h.position
    exact ⟨.coord p, rfl, hspells⟩
  · obtain ⟨k, h, hrest⟩ := h.rule rfl
    obtain ⟨k₁, n₁, hopening, h, hrest₁⟩ := h.seq
    obtain ⟨k₂, n₂, hnumber, hclosing, hrest₂⟩ := h.seq
    obtain ⟨q, hnumber⟩ := hnumber.measure
    have hopening := hopening.word (by decide)
    have hclosing := hclosing.word (by decide)
    rw [hrest₂, hrest₁, hrest] at hclosing
    exact ⟨.argument q, rfl, hopening.trans (hnumber.trans hclosing)⟩
  · obtain ⟨t, ht, hspells⟩ := h.function
    exact ⟨.function t ht, rfl, hspells⟩

/-! ## Commands -/

/-- A sequence is its first part and the others behind it. -/
theorem seqs_cons {es : List (Expr Rule)} (h : Reads (seqs (e :: es)) s m) :
    ∃ k n, Reads e s k ∧ Reads (seqs es) k.rest n ∧ Spells id n.rest m.rest := by
  cases es with
  | nil =>
      have hlast : Reads e s m := h
      exact ⟨m, _, hlast, run_lit_append [] _, spells_gap_rest m.rest⟩
  | cons e' es =>
      obtain ⟨k, n, hfirst, hothers, hrest⟩ := h.seq
      exact ⟨k, n, hfirst, hothers, fun _ _ hps => hrest ▸ hps⟩

/-- Operands of one rule. -/
theorem operands (h : Reads (.star (.rule r)) s m) (hr : r ∈ Operand.rules) :
    ∃ os : List Operand, (∀ o ∈ os, o.rule = r) ∧
      Spells (fun ps => os.foldr (fun o ps => o.before ps) ps) s m.rest := by
  let C (s t : List Char) : Prop := ∃ os : List Operand, (∀ o ∈ os, o.rule = r) ∧
    Spells (fun ps => os.foldr (fun o ps => o.before ps) ps) s t
  refine h.star (C := C) (left_rule r hr) ?_ ?_ ?_
  · intro s
    exact ⟨[], List.forall_mem_nil _, fun _ _ hps => hps⟩
  · intro s
    exact ⟨[], List.forall_mem_nil _, spells_gap s⟩
  · rintro s t m hm ⟨os, hos, hspells⟩
    obtain ⟨o, ho, hfirst⟩ := hm.operand hr
    exact ⟨o :: os, List.forall_mem_cons.mpr ⟨ho, hos⟩, hfirst.trans hspells⟩

/-- What is read for some slots are operands that fill them. -/
theorem fills {slots : List Slot} (hslots : ∀ slot ∈ slots, slot.rule ∈ Operand.rules)
    (h : Reads (seqs (slots.map Slot.expr)) s m) :
    ∃ os, Fills slots os ∧ Spells (fun ps => os.foldr (fun o ps => o.before ps) ps) s m.rest := by
  induction slots generalizing s m with
  | nil =>
      have hnothing : Reads (.lit []) s m := h
      obtain rfl := Option.some.inj ((run_lit_append [] _).symm.trans hnothing)
      exact ⟨[], .nil, spells_gap s⟩
  | cons slot slots ih =>
      obtain ⟨hslot, hslots⟩ := List.forall_mem_cons.mp hslots
      obtain ⟨k, n, hfirst, hothers, hrest⟩ := h.seqs_cons
      obtain ⟨os, hfills, hspells⟩ := ih hslots hothers
      have hspells := hspells.trans hrest
      cases slot with
      | once r =>
          obtain ⟨o, ho, hfirst⟩ := operand hfirst hslot
          exact ⟨o :: os, .once ho hfills, hfirst.trans hspells⟩
      | optional r =>
          rcases hfirst.opt with hfirst | hgap
          · obtain ⟨o, ho, hfirst⟩ := hfirst.operand hslot
            exact ⟨o :: os, .present ho hfills, hfirst.trans hspells⟩
          · exact ⟨os, .absent hfills, hgap.trans hspells⟩
      | many r =>
          obtain ⟨os', hos', hfirst⟩ := operands hfirst hslot
          refine ⟨os' ++ os, .many hos' hfills, ?_⟩
          simp only [List.foldr_append]
          exact hfirst.trans hspells

theorem notAhead (h : Reads (.notAhead e) s m) : Spells id s m.rest := by
  rw [Reads, Expr.run] at h
  split at h
  · obtain rfl := Option.some.inj h
    exact spells_gap s
  · cases h

theorem name {w : String} (h : Reads (Expr.name w) s m) (hne : w.toList ≠ []) :
    Spells (w.toList :: ·) s m.rest := by
  obtain ⟨k, n, hword, hahead, hrest⟩ := h.seq
  rw [← hrest]
  exact (hword.word hne).trans hahead.notAhead

/-- A name that is a token of its own is one of some words. -/
theorem nameRule {ws : List String} (h : Reads (.rule r) s m) (hr : r.kind.spacing = .tight)
    (hbody : expr r = .seq (Expr.alts (ws.map Expr.word)) (.notAhead (.one .letter)))
    (hne : ∀ w ∈ ws, w.toList ≠ []) : ∃ w ∈ ws, Spells (w.toList :: ·) s m.rest := by
  obtain ⟨ns, hns⟩ := h.token hr
  rw [hbody] at hns
  obtain ⟨t, u, _, _, htaken, ht, hu⟩ := hns.exists_of_tight_seq
  cases hu
  obtain ⟨_, hword, ht⟩ := ht.exists_of_alts
  obtain ⟨w, hw, rfl⟩ := List.mem_map.mp hword
  obtain ⟨rfl, -⟩ := ht.eq_of_lit
  have htaken : m.taken = w.toList := htaken.trans (List.append_nil _)
  refine ⟨w, hw, ?_⟩
  rw [← htaken]
  exact h.spells (htaken ▸ hne w hw)

/-- The name of a command, or of another one that has the same rule. -/
theorem head {c : ShapeCommand} (h : Reads c.head s m) : ∃ c' : ShapeCommand,
    c'.slots = c.slots ∧ Spells (c'.name.toList :: ·) s m.rest := by
  cases c with
  | arc =>
      obtain ⟨w, hw, hspells⟩ : ∃ w ∈ ["\\psarcn", "\\psarc"], Spells (w.toList :: ·) s m.rest :=
        nameRule h rfl rfl (by decide)
      simp only [List.mem_cons, List.not_mem_nil, or_false] at hw
      rcases hw with rfl | rfl
      · exact ⟨.arc true, rfl, hspells⟩
      · exact ⟨.arc false, rfl, hspells⟩
  | curve =>
      obtain ⟨w, hw, hspells⟩ : ∃ w ∈ ["\\psecurve", "\\psccurve", "\\pscurve"],
          Spells (w.toList :: ·) s m.rest :=
        nameRule h rfl rfl (by decide)
      simp only [List.mem_cons, List.not_mem_nil, or_false] at hw
      rcases hw with rfl | rfl | rfl
      · exact ⟨.curve .ends, rfl, hspells⟩
      · exact ⟨.curve .closed, rfl, hspells⟩
      · exact ⟨.curve .open, rfl, hspells⟩
  | _ => exact ⟨_, rfl, name h (ShapeCommand.isName _).ne_nil⟩

/-- What the rule of a shape command takes is a written command. -/
theorem exists_written {c : ShapeCommand} (h : Reads (.rule c.rule) s m) :
    ∃ w : Written, Ahead m.rest w.pieces s := by
  have hspacing : c.rule.kind.spacing = .loose := by
    rw [c.kind_rule]
    rfl
  obtain ⟨k, hbody, hrest⟩ := h.rule hspacing
  rw [c.expr_rule] at hbody
  obtain ⟨k', n, hhead, hoperands, hbehind⟩ := hbody.seqs_cons
  obtain ⟨c', hslots, hname⟩ := hhead.head
  obtain ⟨os, hfills, hos⟩ := hoperands.fills c.rule_mem_rules
  have hnothing : Ahead m.rest [] k.rest := hrest ▸ (Spread.nil .nil).ahead m.rest
  refine ⟨⟨c', os, hslots ▸ hfills⟩, ?_⟩
  exact hname _ _ (hos _ _ (hbehind _ _ hnothing))

/-- An item is made by one rule. -/
theorem exists_rule_of_item (h : Reads item s m) :
    ∃ r t parts, Reads (.rule r) s m ∧ m.nodes = [.mk r t parts] := by
  have hrule : ∃ r, Reads (.rule r) s m := by
    obtain ⟨e, he, h⟩ := h.alts
    simp only [List.mem_cons, List.not_mem_nil, or_false] at he
    rcases he with rfl | rfl | rfl
    · exact ⟨_, h⟩
    · obtain ⟨e, he, h⟩ := h.alts
      obtain ⟨r, -, rfl⟩ := List.mem_map.mp he
      exact ⟨r, h⟩
    · exact ⟨_, h⟩
  obtain ⟨r, h⟩ := hrule
  obtain ⟨parts, -, hnodes⟩ := h.derives.exists_of_rule
  exact ⟨r, _, _, h, hnodes⟩

end Reads

end Spelling

/-! ## Sources -/

/-- A source without items is a gap. -/
theorem ofSource?_eq_nil_iff {source : String} :
    Item.ofSource? source = some [] ↔ (gap .loose source.toList : Match Rule).rest = [] := by
  constructor
  · intro h
    rw [ofSource?_eq_itemsOf] at h
    split at h
    · next hend =>
        cases hm : item.run grammar.start? .loose (gap .loose source.toList : Match Rule).rest with
        | none =>
            rw [itemsOf_of_none hm] at hend
            exact hend
        | some m =>
            obtain ⟨r, t, parts, -, hnodes⟩ := Reads.exists_rule_of_item hm
            have hnone := eq_nil_of_ofNodes? h
            rw [itemsOf_of_some hm, Match.nodes_append, Match.nodes_append, hnodes,
              nodes_gap] at hnone
            cases hnone
    · cases h
  · intro h
    have hempty : Item.ofSource? source = Item.ofSource? "" := ofSource?_eq_of_gap h
    rw [hempty]
    cbv

theorem Node.shapeCommand?_of_command? {n : Node Rule} {c : ShapeCommand} {a : Arguments}
    (h : n.command? = some (.shape c a)) : n.shapeCommand? = some c := by
  rw [Node.command?] at h
  -- every branch but the last one makes a command of another kind
  split at h
  all_goals simp [Option.bind_eq_some_iff] at h
  exact h.1

theorem Node.rule_of_shapeCommand? {n : Node Rule} {c : ShapeCommand}
    (h : n.shapeCommand? = some c) : n.rule = c.rule := by
  obtain ⟨r, t, parts⟩ := n
  cases r with
  | plot =>
      obtain ⟨f, -, rfl⟩ := Option.map_eq_some_iff.mp h
      rfl
  | _ => cases h <;> rfl

theorem Item.command?_of_ofNode? {n : Node Rule} {c : Command}
    (h : Item.ofNode? n = some (.command c)) : n.command? = some c := by
  obtain ⟨r, t, parts⟩ := n
  rw [Item.ofNode?] at h
  split at h
  · simp [Option.bind_eq_some_iff] at h
  · obtain ⟨c', hc, hcommand⟩ := Option.map_eq_some_iff.mp h
    obtain rfl := Item.command.inj hcommand
    exact hc

/-- The first item of a source is made by a rule, and the others are those of the source behind
it. -/
theorem exists_rule_of_ofSource? {source : String} {i : Item} {is : List Item}
    (h : Item.ofSource? source = some (i :: is)) : ∃ r t parts m, Reads (.rule r) source.toList m ∧
      Item.ofNode? (.mk r t parts) = some i ∧ Item.ofSource? (String.ofList m.rest) = some is := by
  have hnodes := h
  rw [ofSource?_eq_itemsOf] at hnodes
  split at hnodes
  · cases hm : item.run grammar.start? .loose (gap .loose source.toList : Match Rule).rest with
    | none =>
        rw [itemsOf_of_none hm] at hnodes
        cases hnodes
    | some m =>
        obtain ⟨r, t, parts, hrule, hnode⟩ := Reads.exists_rule_of_item hm
        rw [itemsOf_of_some hm, Match.nodes_append, Match.nodes_append, hnode, nodes_gap] at hnodes
        obtain ⟨i', hi, hnodes⟩ := Option.bind_eq_some_iff.mp hnodes
        obtain ⟨is', -, hnodes⟩ := Option.bind_eq_some_iff.mp hnodes
        obtain ⟨rfl, -⟩ := List.cons.inj (Option.some.inj hnodes)
        refine ⟨r, t, parts, m, hrule, hi, ?_⟩
        have hfirst : Item.ofNodes? m.nodes = some [i'] := by simp [hnode, Item.ofNodes?, hi]
        have hsource : Item.ofSource? source
            = (Item.ofSource? (String.ofList m.rest)).map ([i'] ++ ·) :=
          ofSource?_of_item hm String.toList_ofList.symm hfirst
        obtain ⟨is'', his, hcons⟩ := Option.map_eq_some_iff.mp (hsource.symm.trans h)
        obtain ⟨-, rfl⟩ := List.cons.inj hcons
        exact his
  · cases hnodes

/-- A source is a shape command if and only if it consists of the pieces of a written one. -/
theorem ofSource?_eq_shape_iff {source : String} {c : ShapeCommand} {a : Arguments} :
    Item.ofSource? source = some [.command (.shape c a)] ↔
      ∃ w : Written, w.command = c ∧ w.arguments = a ∧ Ahead [] w.pieces source.toList := by
  have hwritten (w : Written) (hs : Ahead [] w.pieces source.toList) :
      Item.ofSource? source = some [.command (.shape w.command w.arguments)] := by
    have hempty : Item.ofSource? "" = some [] := ofSource?_eq_nil_iff.mpr rfl
    have hs : Ahead "".toList w.pieces source.toList := hs
    have htail : w.Ends "".toList := ⟨nofun, nofun⟩
    rw [w.ofSource?_eq hs htail, hempty]
    rfl
  constructor
  · intro h
    obtain ⟨r, t, parts, m, hrule, hi, hbehind⟩ := exists_rule_of_ofSource? h
    have hcommand := Node.shapeCommand?_of_command? (Item.command?_of_ofNode? hi)
    obtain rfl : r = c.rule := Node.rule_of_shapeCommand? hcommand
    obtain ⟨w, hw⟩ := Reads.exists_written hrule
    have hgap := ofSource?_eq_nil_iff.mp hbehind
    rw [String.toList_ofList] at hgap
    have hw : Ahead [] w.pieces source.toList := hw.congr_tail hgap
    -- the grammar reads the written command, so its command is the one that was read
    obtain ⟨hitem, -⟩ := List.cons.inj (Option.some.inj ((hwritten w hw).symm.trans h))
    obtain ⟨hc, ha⟩ := Command.shape.inj (Item.command.inj hitem)
    exact ⟨w, hc, ha, hw⟩
  · rintro ⟨w, rfl, rfl, hs⟩
    exact hwritten w hs

end PictureTree
