/-
# `Proofs.Grammar.Grading` — grades that are computed

Whether an expression is firm, exact or steady follows from its parts, so it is
computed: `Survey.gradeOf` reads an expression once, and looks up the grades of
rules in a table.  `Survey.meets_gradeOf` says that what it computes is so, if
the table is right, and `Survey.meets_apply` that the table is right if every
rule is graded no better than its expression.

A table for a given grammar is thus checked by evaluation.  Rules that are
better than their expressions are computed to be are left to proofs by hand.
-/
import PictureTree.Proofs.Grammar.TrailingRepetition

namespace PictureTree

variable {ρ : Type}

/-- What is known of an expression. -/
inductive Grade where
  | firm
  | exact
  /-- Its runs are tied. -/
  | held
  | steady
  /-- It is exact, but on a name alone. -/
  | exactBut (name : List Char)
  /-- It is steady, but on a name alone. -/
  | steadyBut (name : List Char)
  | unknown
deriving DecidableEq, Repr

/-- What is known of the rules of a grammar. -/
structure Survey (ρ : Type) where
  bare : List (List Char)
  absent : List (List Char)
  lost : Region ρ
  letters : Region ρ
  holds_letters : ∀ {z}, (∀ c ∈ z, c.isAlpha = true) → letters.holds z
  consuming : ρ → Bool
  /-- Rules that match at every text. -/
  constant : ρ → Bool
  grade : ρ → Grade
  /-- Expressions that are steady for a reason that is not computed. -/
  known : List (Spacing × Expr ρ)

namespace Grade

/-- Whether an expression with a grade is steady. -/
def settles : Grade → Bool
  | .exactBut _ | .steadyBut _ | .unknown => false
  | _ => true

/-- The grade of an expression of which the worse of two is known. -/
def either (ga gb : Grade) : Grade :=
  if ga = .firm && gb = .firm then .firm
  else if (ga = .firm || ga = .held) && (gb = .firm || gb = .held) then .held
  else if ga.settles && gb.settles then .steady
  else .unknown

end Grade

/-- The text of a name. -/
def Expr.nameText? : Expr ρ → Option (List Char)
  | .seq (.lit t) (.notAhead (.one .letter)) => some t
  | _ => none

namespace Survey

variable [DecidableEq ρ] (V : Survey ρ)

/-- Whether an expression takes a character whenever it matches. -/
def consumes (e : Expr ρ) : Bool := (Region.empty V.consuming).left e

/-- Whether an expression matches at every text. -/
def isConstant : Expr ρ → Bool
  | .opt _ | .star _ => true
  | .rule r => V.constant r
  | _ => false

/-- Whether a literal can be told from a word: it is on one line, and not of
letters alone. -/
def tells (t : List Char) : Bool := !t.contains '\n' && t.any fun c => !c.isAlpha

/-- The grade of a sequence of two graded parts. -/
def gradeSeq (sp : Spacing) (b : Expr ρ) (ga gb : Grade) : Grade :=
  if (ga = .firm || ga = .exact) && gb = .firm then .firm
  else if (ga = .firm || ga = .exact) && (gb = .firm || gb = .exact) then .exact
  else if ga.settles && gb = .firm && V.lost.left b then .firm
  else if sp = .tight && (ga = .firm || ga = .held) && (gb = .firm || gb = .held) then .held
  else if ga.settles && gb.settles && V.isConstant b then .steady
  else .unknown

/-- The grade of what stands behind a name, together with the name. -/
def gradeNamed (t : List Char) (b : Expr ρ) (gb : Grade) : Grade :=
  if tells t && gb = .firm then .firm
  else if tells t && gb = .exact && V.letters.left b then .exact
  else if tells t && gb = .exact then .exactBut t
  else .unknown

/-- The grade of a repetition, or of an optional part. -/
def gradeOpt : Spacing → Grade → Grade
  | .tight, .firm | .tight, .held => .held
  | .loose, .firm => .exact
  | .loose, .held => .steady
  | _, .exact | _, .steady => .steady
  | _, .exactBut _ | _, .steadyBut _ | _, .unknown => .unknown

/-- The grade of an expression. -/
def gradeOf (kind : ρ → RuleKind) (sp : Spacing) : Expr ρ → Grade
  | .lit t => if t.contains '\n' then .unknown else if tells t then .firm else .held
  | .one p => if p.test '\n' then .steady else .held
  | .rule r => if sp = .tight && (kind r).spacing = .loose then .unknown else V.grade r
  | .alt a b =>
    if V.known.contains (sp, .alt a b) then .steady
    else (gradeOf kind sp a).either (gradeOf kind sp b)
  | .opt e => gradeOpt sp (gradeOf kind sp e)
  | .star e => if V.consumes e then gradeOpt sp (gradeOf kind sp e) else .unknown
  | .notAhead e =>
    if sp = .tight && (gradeOf kind sp e = .firm || gradeOf kind sp e = .held) then .held
    else .unknown
  | .atEnd => .unknown
  | .seq a b =>
    if V.known.contains (sp, .seq a b) then .steady
    else match (Expr.seq a b).nameText?, a.nameText? with
    | some t, _ =>
      if sp = .tight then V.gradeSeq sp b (gradeOf kind sp a) (gradeOf kind sp b)
      else if tells t && V.bare.contains t then .firm
      else if tells t then .exactBut t
      else .unknown
    | none, some t =>
      if tells t && V.absent.contains t then .firm
      else if V.bare.contains t || sp = .tight then
        V.gradeSeq sp b (gradeOf kind sp a) (gradeOf kind sp b)
      else V.gradeNamed t b (gradeOf kind sp b)
    | none, none => V.gradeSeq sp b (gradeOf kind sp a) (gradeOf kind sp b)

/-- Whether a rule with an expression may have a grade. -/
def allows (kind : RuleKind) (e : Expr ρ) (computed : Grade) : Grade → Bool
  | .firm => computed = .firm ||
      (kind.spacing = .tight && computed = .held && V.letters.left e)
  | .held => computed = .firm || computed = .held
  | .steady => computed.settles
  | .steadyBut t => computed = .exactBut t
  | .exact | .exactBut _ => false
  | .unknown => true

end Survey

/-! ## What grades mean -/

namespace Trailer

variable (T : Trailer ρ)

/-- Runs that are tied. -/
structure Held (f : List Char → Option (Match ρ)) : Prop where
  tied : ∀ {u}, T.Plain u → Tied T.line (f u) (f (u ++ T.line))

/-- What a grade says. -/
def Meets (sp : Spacing) (f : List Char → Option (Match ρ)) : Grade → Prop
  | .firm => T.Firm f
  | .exact => T.Exact f
  | .held => T.Held f
  | .steady => T.Steady sp f
  | .exactBut t => T.ExactBut t f
  | .steadyBut t => T.SteadyBut t sp f
  | .unknown => True

variable {T} {sp : Spacing} {f : List Char → Option (Match ρ)} {grade : Grade}

theorem Held.steady (hf : T.Held f) : T.Steady sp f := ⟨fun hu => .inl (hf.tied hu)⟩

theorem Firm.held (hf : T.Firm f) : T.Held f := ⟨hf.tied⟩

/-- In a tight rule no gap reaches the line. -/
theorem Held.seq {call : ρ → List Char → Option (Match ρ)} {a b : Expr ρ}
    (hcall : ∀ r, Splits (call r)) (ha : T.Held (a.run call .tight))
    (hb : T.Held (b.run call .tight)) : T.Held ((Expr.seq a b).run call .tight) where
  tied hu := by
    rcases run_seq_of_tied (b := b) hcall hu (ha.tied hu) with
      ⟨hx, hy⟩ | ⟨m, v, -, hv, hgap, hx, hy⟩ | ⟨m, n, hsp, -⟩
    · rw [hx, hy]
      exact tied_none
    · rw [hx, hy]
      exact tied_join hgap (hb.tied hv)
    · cases hsp

theorem Held.alt {call : ρ → List Char → Option (Match ρ)} {a b : Expr ρ}
    (ha : T.Held (a.run call sp)) (hb : T.Held (b.run call sp)) :
    T.Held ((Expr.alt a b).run call sp) :=
  ⟨fun hu => tied_alt (ha.tied hu) (hb.tied hu)⟩

theorem Meets.steady (h : T.Meets sp f grade) (hg : grade.settles = true) : T.Steady sp f := by
  cases grade with
  | firm => exact Exact.steady (Firm.exact h) sp
  | exact => exact Exact.steady h sp
  | held => exact Held.steady h
  | steady => exact h
  | exactBut | steadyBut | unknown => cases hg

theorem Meets.exact (h : T.Meets sp f grade) (hg : grade = .firm ∨ grade = .exact) :
    T.Exact f := by
  rcases hg with rfl | rfl
  · exact Firm.exact h
  · exact h

theorem Meets.held (h : T.Meets sp f grade) (hg : grade = .firm ∨ grade = .held) : T.Held f := by
  rcases hg with rfl | rfl
  · exact Firm.held h
  · exact h

theorem SteadyAt.loosen {u : List Char} (hf : T.SteadyAt sp f u) : T.SteadyAt .loose f u := by
  have hleaves : ∀ {x : Option (Match ρ)}, Leaves T.lost.holds sp x →
      Leaves T.lost.holds .loose x := fun ⟨m, hm, h⟩ => by
    cases sp with
    | loose => exact ⟨m, hm, h⟩
    | tight => exact ⟨m, hm, lost_of_suffix h (gap_suffix .loose m.rest)⟩
  exact hf.imp_right (Or.imp_left (And.imp hleaves hleaves))

theorem Meets.loosen (h : T.Meets sp f grade) : T.Meets .loose f grade := by
  cases grade with
  | steady => exact ⟨fun hu => SteadyAt.loosen (Settled.outcome h hu)⟩
  | steadyBut t => exact ⟨fun hu ht => SteadyAt.loosen (SteadyBut.outcome h hu ht)⟩
  | firm | exact | held | exactBut | unknown => exact h

/-- No rule is exact, since the texts of two nodes may differ where their parts agree. -/
theorem Meets.wrap (h : T.Meets sp f grade) (hg : ∀ t, grade ≠ .exact ∧ grade ≠ .exactBut t)
    (kind : RuleKind) (r : ρ) : T.Meets sp (fun s => (f s).map (.wrap kind r)) grade := by
  have htied : ∀ {x y : Option (Match ρ)}, Tied T.line x y →
      Tied T.line (x.map (.wrap kind r)) (y.map (.wrap kind r)) := by
    intro x y hxy
    rw [Tied] at hxy ⊢
    subst hxy
    cases x <;> rfl
  have hleaves : ∀ {x : Option (Match ρ)}, Leaves T.lost.holds sp x →
      Leaves T.lost.holds sp (x.map (.wrap kind r)) := by
    rintro x ⟨m, hm, h⟩
    exact ⟨m.wrap kind r, by rw [hm]; rfl, h⟩
  cases grade with
  | firm =>
      exact ⟨fun hu => htied (Firm.tied h hu), fun hz => by rw [Firm.none_of_isAlpha h hz]; rfl⟩
  | exact => exact absurd rfl (hg []).1
  | exactBut t => exact absurd rfl (hg t).2
  | held => exact ⟨fun hu => htied (Held.tied h hu)⟩
  | steady =>
      exact ⟨fun hu =>
        (Settled.outcome h hu).imp htied (Or.imp_left (And.imp hleaves hleaves))⟩
  | steadyBut t =>
      exact ⟨fun hu ht =>
        (SteadyBut.outcome h hu ht).imp htied (Or.imp_left (And.imp hleaves hleaves))⟩
  | unknown => trivial

end Trailer

/-! ## Grades are right -/

/-- A survey whose tables are right about the rules of a grammar. -/
structure Survey.Fits [DecidableEq ρ] (V : Survey ρ) (g : Grammar ρ) : Prop where
  consuming : (Region.empty V.consuming).Bounds g
  letters : V.letters.Bounds g
  lost : V.lost.Bounds g
  constant : ∀ r, V.constant r = true → V.isConstant (g.body r) = true
  allowed : ∀ r, V.allows (g.kind r) (g.body r)
    (V.gradeOf g.kind (g.kind r).spacing (g.body r)) (V.grade r) = true

namespace Survey

open Trailer

variable [DecidableEq ρ] {V : Survey ρ} {g : Grammar ρ} (hV : V.Fits g) {T : Trailer ρ}
  (hbare : V.bare ⊆ T.bare) (habsent : V.absent ⊆ T.absent) (hlost : T.lost = V.lost)
  {depth : Nat} {sp : Spacing} {a b e : Expr ρ}

omit [DecidableEq ρ] in
theorem eq_nameOf {t : List Char} (h : e.nameText? = some t) : e = nameOf t := by
  unfold Expr.nameText? at h
  split at h
  · rw [Option.some.inj h]
  · cases h

theorem of_tells {t : List Char} (h : tells t = true) :
    '\n' ∉ t ∧ ∃ c ∈ t, c.isAlpha = false := by
  simpa [tells] using h

omit [DecidableEq ρ] in
theorem isSome_run_of_isConstant
    (hrule : ∀ r, V.constant r = true → ∀ s s',
      (g.apply depth r s).isSome = (g.apply depth r s').isSome)
    (he : V.isConstant e = true) (s s' : List Char) :
    (e.run (g.apply depth) sp s).isSome = (e.run (g.apply depth) sp s').isSome := by
  cases e with
  | opt e => rfl
  | star e => rw [Expr.run_star, Expr.run_star]; rfl
  | rule r => exact hrule r he s s'
  | lit | one | seq | alt | notAhead | atEnd => cases he

include hV

theorem isSome_apply_of_constant {r : ρ} (hr : V.constant r = true) (s s' : List Char) :
    (g.apply depth r s).isSome = (g.apply depth r s').isSome := by
  induction depth generalizing r s s' with
  | zero => rfl
  | succ depth ih =>
      rw [Grammar.apply, Grammar.apply, Option.isSome_map, Option.isSome_map]
      exact isSome_run_of_isConstant (fun r hr s s' => ih hr s s') (hV.constant r hr) s s'

include hlost in
theorem run_eq_none_of_lost (he : V.lost.left e = true) {s : List Char} (hs : T.lost.holds s) :
    e.run (g.apply depth) sp s = none :=
  Region.run_eq_none hV.lost he (hlost ▸ hs)

theorem run_eq_none_of_isAlpha (he : V.letters.left e = true) {s : List Char}
    (hs : ∀ c ∈ s, c.isAlpha = true) : e.run (g.apply depth) sp s = none :=
  Region.run_eq_none hV.letters he (V.holds_letters hs)

include hlost in
theorem meets_gradeSeq {ga gb : Grade} (ha : T.Meets sp (a.run (g.apply depth) sp) ga)
    (hb : T.Meets sp (b.run (g.apply depth) sp) gb) :
    T.Meets sp ((Expr.seq a b).run (g.apply depth) sp) (V.gradeSeq sp b ga gb) := by
  have hcall := g.split_apply depth
  unfold gradeSeq
  split
  · next h =>
      obtain ⟨hga, rfl⟩ : (ga = .firm ∨ ga = .exact) ∧ gb = .firm := by simpa using h
      exact (ha.exact hga).seq_firm hcall hb
  split
  · next h =>
      obtain ⟨hga, hgb⟩ : (ga = .firm ∨ ga = .exact) ∧ (gb = .firm ∨ gb = .exact) := by
        simpa using h
      exact (ha.exact hga).seq hcall (hb.exact hgb)
  split
  · next h =>
      obtain ⟨⟨hga, rfl⟩, hleft⟩ : (ga.settles = true ∧ gb = .firm) ∧ V.lost.left b = true := by
        simpa using h
      exact (ha.steady hga).seq_firm hcall hb fun s hs => run_eq_none_of_lost hV hlost hleft hs
  split
  · next h =>
      obtain ⟨⟨rfl, hga⟩, hgb⟩ :
          (sp = .tight ∧ (ga = .firm ∨ ga = .held)) ∧ (gb = .firm ∨ gb = .held) := by simpa using h
      exact (ha.held hga).seq hcall (hb.held hgb)
  split
  · next h =>
      obtain ⟨⟨hga, hgb⟩, hconst⟩ :
          (ga.settles = true ∧ gb.settles = true) ∧ V.isConstant b = true := by simpa using h
      exact (ha.steady hga).seq hcall (hb.steady hgb) (isSome_run_of_isConstant
        (fun r hr => isSome_apply_of_constant hV hr) hconst)
  · trivial

theorem meets_gradeNamed {t : List Char} {gb : Grade}
    (hb : T.Meets sp (b.run (g.apply depth) sp) gb) :
    T.Meets sp ((Expr.seq (nameOf t) b).run (g.apply depth) sp) (V.gradeNamed t b gb) := by
  have hcall := g.split_apply depth
  unfold gradeNamed
  split
  · next h =>
      obtain ⟨ht, rfl⟩ : tells t = true ∧ gb = .firm := by simpa using h
      exact Firm.name_seq hcall (of_tells ht).1 hb
  split
  · next h =>
      obtain ⟨⟨ht, rfl⟩, hleft⟩ : (tells t = true ∧ gb = .exact) ∧ V.letters.left b = true := by
        simpa using h
      obtain ⟨hline, c, hc, hletter⟩ := of_tells ht
      exact Exact.name_seq hcall hline hc hletter hb
        (run_eq_none_of_isAlpha hV hleft (by simp))
  split
  · next h =>
      obtain ⟨ht, rfl⟩ : tells t = true ∧ gb = .exact := by simpa using h
      exact ExactBut.name_seq hcall (of_tells ht).1 hb
  · trivial

omit [DecidableEq ρ] hV in
theorem meets_opt {ge : Grade} (he : T.Meets sp (e.run (g.apply depth) sp) ge) :
    T.Meets sp ((Expr.opt e).run (g.apply depth) sp) (gradeOpt sp ge) := by
  have hheld : T.Held (e.run (g.apply depth) sp) → T.Held ((Expr.opt e).run (g.apply depth) sp) :=
    fun h => ⟨fun hu => tied_opt (h.tied hu) rfl⟩
  cases ge with
  | firm =>
      cases sp with
      | tight => exact hheld (Firm.held he)
      | loose => exact Firm.opt he
  | held =>
      cases sp with
      | tight => exact hheld he
      | loose => exact (hheld he).steady
  | exact => cases sp <;> exact (Exact.steady he _).opt
  | steady => cases sp <;> exact Settled.opt he
  | exactBut | steadyBut | unknown => cases sp <;> trivial

theorem meets_star {ge : Grade} (he : T.Meets sp (e.run (g.apply depth) sp) ge)
    (hconsumes : V.consumes e = true) :
    T.Meets sp ((Expr.star e).run (g.apply depth) sp) (gradeOpt sp ge) := by
  have hcall := g.split_apply depth
  have hc : Consumes (e.run (g.apply depth) sp) := consumes_of_left hV.consuming hconsumes
  have hheld : sp = .tight → T.Held (e.run (g.apply depth) sp) →
      T.Held ((Expr.star e).run (g.apply depth) sp) := fun hsp h =>
    ⟨fun hu => tied_star hcall hc h.tied (fun hsp' => by rw [hsp] at hsp'; cases hsp') hu⟩
  cases ge with
  | firm =>
      cases sp with
      | tight => exact hheld rfl (Firm.held he)
      | loose => exact Firm.star hcall he hc
  | held =>
      cases sp with
      | tight => exact hheld rfl he
      | loose => exact (Held.steady he).star hcall hc
  | exact => cases sp <;> exact (Exact.steady he _).star hcall hc
  | steady => cases sp <;> exact Steady.star hcall he hc
  | exactBut | steadyBut | unknown => cases sp <;> trivial

omit [DecidableEq ρ] hV in
theorem meets_either {ga gb : Grade} (ha : T.Meets sp (a.run (g.apply depth) sp) ga)
    (hb : T.Meets sp (b.run (g.apply depth) sp) gb) :
    T.Meets sp ((Expr.alt a b).run (g.apply depth) sp) (ga.either gb) := by
  unfold Grade.either
  split
  · next h =>
      obtain ⟨rfl, rfl⟩ : ga = .firm ∧ gb = .firm := by simpa using h
      exact Firm.alt ha hb
  split
  · next h =>
      obtain ⟨hga, hgb⟩ : (ga = .firm ∨ ga = .held) ∧ (gb = .firm ∨ gb = .held) := by
        simpa using h
      exact (ha.held hga).alt (hb.held hgb)
  split
  · next h =>
      obtain ⟨hga, hgb⟩ : ga.settles = true ∧ gb.settles = true := by simpa using h
      exact (ha.steady hga).alt (hb.steady hgb)
  · trivial

omit [DecidableEq ρ] hV in
theorem meets_lit {call : ρ → List Char → Option (Match ρ)} {t : List Char} (hline : '\n' ∉ t) :
    T.Meets sp ((Expr.lit t).run call sp) (if tells t then .firm else .held) := by
  split
  · next htells =>
      obtain ⟨-, c, hc, hletter⟩ := of_tells htells
      exact Firm.lit hline hc hletter
  · exact ⟨fun {u} _ => tied_lit hline u⟩

omit [DecidableEq ρ] hV in
/-- A rule is matched in its own spacing, and in a loose one as well. -/
theorem meets_rule {call : ρ → List Char → Option (Match ρ)} {own : Spacing} {r : ρ}
    {grade : Grade} (hr : T.Meets own (call r) grade) (hsp : sp = .tight → own = .tight) :
    T.Meets sp ((Expr.rule r).run call sp) grade := by
  cases sp with
  | loose => exact hr.loosen
  | tight => exact hsp rfl ▸ hr

include hbare habsent hlost in
theorem meets_seq (hknown : ∀ p ∈ V.known, T.Steady p.1 (p.2.run (g.apply depth) p.1))
    (ha : T.Meets sp (a.run (g.apply depth) sp) (V.gradeOf g.kind sp a))
    (hb : T.Meets sp (b.run (g.apply depth) sp) (V.gradeOf g.kind sp b)) :
    T.Meets sp ((Expr.seq a b).run (g.apply depth) sp) (V.gradeOf g.kind sp (.seq a b)) := by
  rw [gradeOf]
  split
  · next h => exact hknown (sp, .seq a b) (List.contains_iff_mem.mp h)
  split
  -- the sequence is a name
  · next t hname =>
      split
      · exact meets_gradeSeq hV hlost ha hb
      next hsp =>
      have hsp : sp = .loose := by
        cases sp with
        | loose => rfl
        | tight => exact absurd rfl hsp
      rw [eq_nameOf hname, hsp]
      split
      · next h =>
          obtain ⟨ht, htbare⟩ : tells t = true ∧ t ∈ V.bare := by simpa using h
          obtain ⟨hline, c, hc, hletter⟩ := of_tells ht
          exact Firm.name (g.split_apply depth) hline (hbare htbare) hc hletter
      split
      · next ht => exact ExactBut.name (g.split_apply depth) (of_tells ht).1
      · trivial
  -- it starts with a name
  · next t _ hname =>
      split
      · next h =>
          obtain ⟨ht, htabsent⟩ : tells t = true ∧ t ∈ V.absent := by simpa using h
          obtain ⟨hline, c, hc, hletter⟩ := of_tells ht
          rw [eq_nameOf hname]
          exact Firm.absent_seq hline (habsent htabsent) hc hletter
      split
      · exact meets_gradeSeq hV hlost ha hb
      · rw [eq_nameOf hname]
        exact meets_gradeNamed hV hb
  · exact meets_gradeSeq hV hlost ha hb

include hbare habsent hlost in
/-- The computed grade of an expression is right, if those of the rules are. -/
theorem meets_gradeOf
    (hrule : ∀ r, T.Meets (g.kind r).spacing (g.apply depth r) (V.grade r))
    (hknown : ∀ p ∈ V.known, T.Steady p.1 (p.2.run (g.apply depth) p.1)) (sp : Spacing)
    (e : Expr ρ) : T.Meets sp (e.run (g.apply depth) sp) (V.gradeOf g.kind sp e) := by
  induction e with
  | lit t =>
      rw [gradeOf]
      split
      · trivial
      · next hline => exact meets_lit (by simpa using hline)
  | one p =>
      rw [gradeOf]
      split
      · exact steady_one p
      · next hp => exact ⟨fun {u} _ => tied_one (Bool.eq_false_iff.mpr hp) u⟩
  | rule r =>
      rw [gradeOf]
      split
      · trivial
      · next hsp =>
          refine meets_rule (hrule r) ?_
          rintro rfl
          cases hkind : (g.kind r).spacing with
          | tight => rfl
          | loose => simp [hkind] at hsp
  | alt a b iha ihb =>
      rw [gradeOf]
      split
      · next h => exact hknown (sp, .alt a b) (List.contains_iff_mem.mp h)
      · exact meets_either iha ihb
  | opt e ih => exact meets_opt ih
  | star e ih =>
      rw [gradeOf]
      split
      · next hconsumes => exact meets_star hV ih hconsumes
      · trivial
  | notAhead e ih =>
      rw [gradeOf]
      split
      · next h =>
          obtain ⟨-, hge⟩ : sp = .tight ∧ _ := by simpa using h
          exact ⟨fun hu => tied_notAhead ((ih.held hge).tied hu) rfl⟩
      · trivial
  | atEnd => trivial
  | seq a b iha ihb => exact meets_seq hV hbare habsent hlost hknown iha ihb

theorem meets_of_allows {kind : RuleKind} {computed given : Grade}
    (he : T.Meets kind.spacing (e.run (g.apply depth) kind.spacing) computed)
    (h : V.allows kind e computed given = true) :
    T.Meets kind.spacing (e.run (g.apply depth) kind.spacing) given := by
  cases given with
  | firm =>
      rcases Bool.or_eq_true_iff.mp h with h | h
      · obtain rfl : computed = .firm := by simpa using h
        exact he
      · obtain ⟨⟨-, rfl⟩, hleft⟩ :
            (kind.spacing = .tight ∧ computed = .held) ∧ V.letters.left e = true := by simpa using h
        exact ⟨fun hu => Held.tied he hu, fun hz => run_eq_none_of_isAlpha hV hleft hz⟩
  | held => exact he.held (by simpa [allows] using h)
  | steady => exact he.steady h
  | steadyBut t =>
      obtain rfl : computed = .exactBut t := by simpa [allows] using h
      exact ExactBut.steadyBut he _
  | exact | exactBut => cases h
  | unknown => trivial

include hbare habsent hlost in
/-- The grades of all rules are right, at any depth. -/
theorem meets_apply
    (hknown : ∀ depth, (∀ r, T.Meets (g.kind r).spacing (g.apply depth r) (V.grade r)) →
      ∀ p ∈ V.known, T.Steady p.1 (p.2.run (g.apply depth) p.1)) (depth : Nat) (r : ρ) :
    T.Meets (g.kind r).spacing (g.apply depth r) (V.grade r) := by
  induction depth generalizing r with
  | zero =>
      cases V.grade r with
      | firm => exact ⟨fun _ => tied_none, fun _ => rfl⟩
      | exact => exact ⟨fun _ => .inl tied_none, .inl ⟨rfl, rfl⟩⟩
      | held => exact ⟨fun _ => tied_none⟩
      | steady => exact ⟨fun _ => .inl tied_none⟩
      | exactBut | steadyBut => exact ⟨fun _ _ => .inl tied_none⟩
      | unknown => trivial
  | succ depth ih =>
      have hbody := meets_gradeOf hV hbare habsent hlost ih (hknown depth ih)
        (g.kind r).spacing (g.body r)
      refine (meets_of_allows hV hbody (hV.allowed r)).wrap (fun t => ?_) (g.kind r) r
      have hallowed := hV.allowed r
      refine ⟨fun h => ?_, fun h => ?_⟩ <;>
        · rw [h] at hallowed
          cases hallowed

end Survey

end PictureTree
