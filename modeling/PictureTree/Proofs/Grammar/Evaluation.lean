/-
# `Proofs.Grammar.Evaluation` — matching without bounds

The program bounds its work: a repetition by the length of the text, and rules by a depth
that is computed from it.  Here a match is evaluated with no bound at all, the way the
expressions read: a rule goes on to its expression, a sequence to its second part behind
its first, a repetition to its next turn.  `Grammar.Evaluates` is the tree of all this,
and `Grammar.Asks` is one edge of it.

    an edge leads to less                   `Asks.less`
    so there is no endless path             `acc_asks`
    so every task has an evaluation         `evaluates_run`
    and it has no other than the program's  `evaluates_iff`

What makes an edge lead to less is that a grammar progresses (`Grammar.Progresses`):
whatever it repeats takes a character, and rules that are entered at one place of a text,
one inside the other, have falling ranks.  So a rule comes back to itself only at a
shorter text (`shorter_of_reenters`).
-/
import Mathlib.Logic.Relation
import PictureTree.Proofs.Grammar.Fixpoint
import PictureTree.Proofs.Grammar.Running

namespace PictureTree

open Trailer

variable {ρ : Type}

/-! ## Tasks -/

/-- What is looked for: one match of an expression, or all its further repetitions, each
behind a gap. -/
inductive Goal (ρ : Type) where
  | once (e : Expr ρ)
  | again (e : Expr ρ)

/-- The expression that is matched; further repetitions are part of a repetition. -/
def Goal.expr : Goal ρ → Expr ρ
  | .once e => e
  | .again e => .star e

/-- What is looked for at the start of a text. -/
structure Task (ρ : Type) where
  spacing : Spacing
  goal : Goal ρ
  text : List Char

/-- What is found, where `call` is the match of a rule. -/
def Task.run (call : ρ → List Char → Option (Match ρ)) (t : Task ρ) : Option (Match ρ) :=
  match t.goal with
  | .once e => e.run call t.spacing t.text
  | .again e => some (repetitions (e.run call t.spacing) t.spacing t.text)

namespace Grammar

/-- What a task comes to.  A derivation is the tree of the tasks on the way, and it is
finite, since nothing cuts it off. -/
inductive Evaluates (g : Grammar ρ) : Task ρ → Option (Match ρ) → Prop
  | lit (sp : Spacing) (t s : List Char) :
      Evaluates g ⟨sp, .once (.lit t), s⟩ ((Text.after? t s).map fun rest => ⟨t, rest, []⟩)
  | oneAtEnd (sp : Spacing) (p : CharClass) : Evaluates g ⟨sp, .once (.one p), []⟩ none
  | one (sp : Spacing) (p : CharClass) (c : Char) (s : List Char) :
      Evaluates g ⟨sp, .once (.one p), c :: s⟩ (if p.test c then some ⟨[c], s, []⟩ else none)
  | rule {sp : Spacing} {r : ρ} {s : List Char} {o : Option (Match ρ)}
      (h : Evaluates g ⟨(g.kind r).spacing, .once (g.body r), s⟩ o) :
      Evaluates g ⟨sp, .once (.rule r), s⟩ (o.map (.wrap (g.kind r) r))
  | seqFails {sp : Spacing} {a b : Expr ρ} {s : List Char}
      (ha : Evaluates g ⟨sp, .once a, s⟩ none) : Evaluates g ⟨sp, .once (.seq a b), s⟩ none
  | seq {sp : Spacing} {a b : Expr ρ} {s : List Char} {m : Match ρ} {o : Option (Match ρ)}
      (ha : Evaluates g ⟨sp, .once a, s⟩ (some m))
      (hb : Evaluates g ⟨sp, .once b, (gap sp m.rest : Match ρ).rest⟩ o) :
      Evaluates g ⟨sp, .once (.seq a b), s⟩ (o.map fun n => m ++ (gap sp m.rest ++ n))
  | left {sp : Spacing} {a b : Expr ρ} {s : List Char} {m : Match ρ}
      (ha : Evaluates g ⟨sp, .once a, s⟩ (some m)) :
      Evaluates g ⟨sp, .once (.alt a b), s⟩ (some m)
  | right {sp : Spacing} {a b : Expr ρ} {s : List Char} {o : Option (Match ρ)}
      (ha : Evaluates g ⟨sp, .once a, s⟩ none) (hb : Evaluates g ⟨sp, .once b, s⟩ o) :
      Evaluates g ⟨sp, .once (.alt a b), s⟩ o
  | opt {sp : Spacing} {e : Expr ρ} {s : List Char} {o : Option (Match ρ)}
      (he : Evaluates g ⟨sp, .once e, s⟩ o) :
      Evaluates g ⟨sp, .once (.opt e), s⟩ (some (o.getD (.nothing s)))
  | starStops {sp : Spacing} {e : Expr ρ} {s : List Char}
      (he : Evaluates g ⟨sp, .once e, s⟩ none) :
      Evaluates g ⟨sp, .once (.star e), s⟩ (some (.nothing s))
  | star {sp : Spacing} {e : Expr ρ} {s : List Char} {m n : Match ρ}
      (he : Evaluates g ⟨sp, .once e, s⟩ (some m))
      (hn : Evaluates g ⟨sp, .again e, m.rest⟩ (some n)) :
      Evaluates g ⟨sp, .once (.star e), s⟩ (some (m ++ n))
  | againStops {sp : Spacing} {e : Expr ρ} {s : List Char}
      (he : Evaluates g ⟨sp, .once e, (gap sp s : Match ρ).rest⟩ none) :
      Evaluates g ⟨sp, .again e, s⟩ (some (.nothing s))
  | again {sp : Spacing} {e : Expr ρ} {s : List Char} {m n : Match ρ}
      (he : Evaluates g ⟨sp, .once e, (gap sp s : Match ρ).rest⟩ (some m))
      (hn : Evaluates g ⟨sp, .again e, m.rest⟩ (some n)) :
      Evaluates g ⟨sp, .again e, s⟩ (some (gap sp s ++ (m ++ n)))
  | notAhead {sp : Spacing} {e : Expr ρ} {s : List Char}
      (he : Evaluates g ⟨sp, .once e, s⟩ none) :
      Evaluates g ⟨sp, .once (.notAhead e), s⟩ (some (.nothing s))
  | ahead {sp : Spacing} {e : Expr ρ} {s : List Char} {m : Match ρ}
      (he : Evaluates g ⟨sp, .once e, s⟩ (some m)) :
      Evaluates g ⟨sp, .once (.notAhead e), s⟩ none
  | atEnd (sp : Spacing) : Evaluates g ⟨sp, .once .atEnd, []⟩ (some (.nothing []))
  | notAtEnd (sp : Spacing) (c : Char) (s : List Char) :
      Evaluates g ⟨sp, .once .atEnd, c :: s⟩ none

/-- The tasks that a task comes to directly; the later ones depend on what the earlier
ones have found. -/
inductive Asks (g : Grammar ρ) : Task ρ → Task ρ → Prop
  | rule {sp : Spacing} {r : ρ} {s : List Char} :
      Asks g ⟨sp, .once (.rule r), s⟩ ⟨(g.kind r).spacing, .once (g.body r), s⟩
  | first {sp : Spacing} {a b : Expr ρ} {s : List Char} :
      Asks g ⟨sp, .once (.seq a b), s⟩ ⟨sp, .once a, s⟩
  | second {sp : Spacing} {a b : Expr ρ} {s : List Char} {m : Match ρ}
      (ha : g.Evaluates ⟨sp, .once a, s⟩ (some m)) :
      Asks g ⟨sp, .once (.seq a b), s⟩ ⟨sp, .once b, (gap sp m.rest : Match ρ).rest⟩
  | left {sp : Spacing} {a b : Expr ρ} {s : List Char} :
      Asks g ⟨sp, .once (.alt a b), s⟩ ⟨sp, .once a, s⟩
  | right {sp : Spacing} {a b : Expr ρ} {s : List Char}
      (ha : g.Evaluates ⟨sp, .once a, s⟩ none) :
      Asks g ⟨sp, .once (.alt a b), s⟩ ⟨sp, .once b, s⟩
  | opt {sp : Spacing} {e : Expr ρ} {s : List Char} :
      Asks g ⟨sp, .once (.opt e), s⟩ ⟨sp, .once e, s⟩
  | star {sp : Spacing} {e : Expr ρ} {s : List Char} :
      Asks g ⟨sp, .once (.star e), s⟩ ⟨sp, .once e, s⟩
  | others {sp : Spacing} {e : Expr ρ} {s : List Char} {m : Match ρ}
      (he : g.Evaluates ⟨sp, .once e, s⟩ (some m)) :
      Asks g ⟨sp, .once (.star e), s⟩ ⟨sp, .again e, m.rest⟩
  | next {sp : Spacing} {e : Expr ρ} {s : List Char} :
      Asks g ⟨sp, .again e, s⟩ ⟨sp, .once e, (gap sp s : Match ρ).rest⟩
  | rest {sp : Spacing} {e : Expr ρ} {s : List Char} {m : Match ρ}
      (he : g.Evaluates ⟨sp, .once e, (gap sp s : Match ρ).rest⟩ (some m)) :
      Asks g ⟨sp, .again e, s⟩ ⟨sp, .again e, m.rest⟩
  | notAhead {sp : Spacing} {e : Expr ρ} {s : List Char} :
      Asks g ⟨sp, .once (.notAhead e), s⟩ ⟨sp, .once e, s⟩

end Grammar

/-! ## Progress -/

/-- What an expression repeats, repetitions inside of others included. -/
def Expr.repeats : Expr ρ → List (Expr ρ)
  | .lit _ | .one _ | .rule _ | .atEnd => []
  | .seq a b | .alt a b => a.repeats ++ b.repeats
  | .opt e | .notAhead e => e.repeats
  | .star e => e :: e.repeats

/-- Whatever is repeated takes a character, if the rules do that are said to. -/
def Expr.Progressive (rules : ρ → Bool) (e : Expr ρ) : Prop :=
  ∀ e' ∈ e.repeats, (Region.empty rules).left e' = true

instance (rules : ρ → Bool) (e : Expr ρ) : Decidable (e.Progressive rules) :=
  inferInstanceAs (Decidable (∀ e' ∈ e.repeats, (Region.empty rules).left e' = true))

/-- A grammar with the rules that take a character and the ranks of all rules, where
repetitions take characters and ranks fall. -/
structure Grammar.Progresses (g : Grammar ρ) (rules : ρ → Bool) (rank : ρ → Nat) : Prop where
  bounds : (Region.empty rules).Bounds g
  ranked : g.Ranked rules rank
  repeats : ∀ r, (g.body r).Progressive rules

section Progress

variable {g : Grammar ρ} {rules : ρ → Bool} {rank : ρ → Nat} {t t' : Task ρ}
  {o : Option (Match ρ)} {sp : Spacing} {a b e : Expr ρ} {s : List Char} {m : Match ρ}

namespace Expr.Progressive

theorem seq_iff : (Expr.seq a b).Progressive rules ↔ a.Progressive rules ∧ b.Progressive rules :=
  List.forall_mem_append

theorem alt_iff : (Expr.alt a b).Progressive rules ↔ a.Progressive rules ∧ b.Progressive rules :=
  List.forall_mem_append

theorem star_iff : (Expr.star e).Progressive rules ↔
    (Region.empty rules).left e = true ∧ e.Progressive rules :=
  List.forall_mem_cons

end Expr.Progressive

namespace Grammar

variable (hg : g.Progresses rules rank)
include hg

theorem Progresses.consumes (he : (Region.empty rules).left e = true) :
    Consumes (e.run g.start? sp) :=
  consumes_start?_of_left hg.bounds he

/-- An evaluation finds what the program finds. -/
theorem Evaluates.run_eq (h : g.Evaluates t o) (ht : t.goal.expr.Progressive rules) :
    t.run g.start? = o := by
  induction h with
  | lit | oneAtEnd | one => rfl
  | @rule sp r s o h ih =>
      have hbody : (g.body r).run g.start? (g.kind r).spacing s = o := ih (hg.repeats r)
      show g.start? r s = _
      rw [start?_eq hg.bounds hg.ranked, hbody]
  | seqFails ha iha => exact run_seq_of_none (iha (Expr.Progressive.seq_iff.mp ht).1)
  | seq ha hb iha ihb =>
      obtain ⟨hta, htb⟩ := Expr.Progressive.seq_iff.mp ht
      have hb' := ihb htb
      show (Expr.seq _ _).run g.start? _ _ = _
      rw [run_seq_of_some (iha hta), ← hb']
      rfl
  | left ha iha => exact run_alt_of_some (iha (Expr.Progressive.alt_iff.mp ht).1)
  | right ha hb iha ihb =>
      obtain ⟨hta, htb⟩ := Expr.Progressive.alt_iff.mp ht
      exact (run_alt_of_none (iha hta)).trans (ihb htb)
  | opt he ih =>
      have he' := ih ht
      rw [← he']
      rfl
  | starStops he ih =>
      have he' : _ = none := ih (Expr.Progressive.star_iff.mp ht).2
      simp only [Task.run] at he' ⊢
      rw [Expr.run_star, he']
  | star he hn ihe ihn =>
      have he' := ihe (Expr.Progressive.star_iff.mp ht).2
      have hn' := Option.some.inj (ihn ht)
      simp only [Task.run] at he' ⊢
      rw [Expr.run_star, he', ← hn']
  | againStops he ih =>
      have he' : _ = none := ih (Expr.Progressive.star_iff.mp ht).2
      exact congrArg some (repetitions_of_none he')
  | again he hn ihe ihn =>
      obtain ⟨hleft, hte⟩ := Expr.Progressive.star_iff.mp ht
      have hn' := Option.some.inj (ihn ht)
      rw [← hn']
      exact congrArg some (repetitions_of_some (hg.consumes hleft) (ihe hte))
  | notAhead he ih =>
      have he' := ih ht
      simp only [Task.run] at he' ⊢
      rw [Expr.run, he']
  | ahead he ih =>
      have he' := ih ht
      simp only [Task.run] at he' ⊢
      rw [Expr.run, he']
  | atEnd | notAtEnd => rfl

/-- What an evaluation has found is what the program matches. -/
theorem Evaluates.run_eq_some (h : g.Evaluates ⟨sp, .once e, s⟩ (some m))
    (he : e.Progressive rules) : e.run g.start? sp s = some m :=
  h.run_eq hg he

end Grammar

/-! ## Less and less -/

/-- A bound of the ranks of the rules that an expression may enter at once. -/
def Expr.level (rules : ρ → Bool) (rank : ρ → Nat) (e : Expr ρ) : Nat :=
  ((e.heads rules).map (rank · + 1)).foldr max 0

theorem Expr.level_le_iff {n : Nat} :
    e.level rules rank ≤ n ↔ ∀ r ∈ e.heads rules, rank r < n := by
  unfold level
  induction e.heads rules with
  | nil => simp
  | cons r rs ih => simp [ih]

theorem Expr.level_le_of_subset (h : a.heads rules ⊆ b.heads rules) :
    a.level rules rank ≤ b.level rules rank :=
  level_le_iff.mpr fun r hr => level_le_iff.mp (Nat.le_refl _) r (h hr)

theorem Expr.heads_subset_seq : a.heads rules ⊆ (Expr.seq a b).heads rules := by
  intro r hr
  rw [heads]
  split
  · exact hr
  · exact List.mem_append_left _ hr

/-- The number of forms that an expression is made of. -/
def Expr.size : Expr ρ → Nat
  | .lit _ | .one _ | .rule _ | .atEnd => 1
  | .seq a b | .alt a b => a.size + b.size + 1
  | .opt e | .star e | .notAhead e => e.size + 1

/-- What is left of the text, which rules may be entered at once, and what is left of the
expression. -/
def Task.weight (rules : ρ → Bool) (rank : ρ → Nat) (t : Task ρ) : Nat × Nat × Nat :=
  (t.text.length, t.goal.expr.level rules rank, t.goal.expr.size)

/-- Less text, or as much and lower rules, or as much and as low and less of the expression. -/
def Task.Less (rules : ρ → Bool) (rank : ρ → Nat) (t' t : Task ρ) : Prop :=
  Prod.Lex (· < ·) (Prod.Lex (· < ·) (· < ·)) (t'.weight rules rank) (t.weight rules rank)

theorem Task.wellFounded_less (rules : ρ → Bool) (rank : ρ → Nat) :
    WellFounded (Task.Less rules rank) :=
  InvImage.wf (Task.weight rules rank)
    (Prod.lex Nat.lt_wfRel (Prod.lex Nat.lt_wfRel Nat.lt_wfRel)).wf

theorem Task.less_of_length (h : t'.text.length < t.text.length) : Task.Less rules rank t' t :=
  .left _ _ h

theorem Task.less_of_level (hlength : t'.text.length ≤ t.text.length)
    (h : t'.goal.expr.level rules rank < t.goal.expr.level rules rank) :
    Task.Less rules rank t' t :=
  Prod.Lex.right' _ hlength (.left _ _ h)

/-- A part is less, at the same text or behind. -/
theorem Task.less_of_part (hlength : t'.text.length ≤ t.text.length)
    (hheads : t'.goal.expr.heads rules ⊆ t.goal.expr.heads rules)
    (hsize : t'.goal.expr.size < t.goal.expr.size) : Task.Less rules rank t' t :=
  Prod.Lex.right' _ hlength (Prod.Lex.right' _ (Expr.level_le_of_subset hheads) hsize)

namespace Grammar

variable (hg : g.Progresses rules rank)
include hg

/-- What a rule asks for has lower rules than itself. -/
theorem Progresses.level_body_le (r : ρ) : (g.body r).level rules rank ≤ rank r :=
  Expr.level_le_iff.mpr (hg.ranked r).2

theorem Asks.progressive (h : g.Asks t t') (ht : t.goal.expr.Progressive rules) :
    t'.goal.expr.Progressive rules := by
  cases h with
  | rule => exact hg.repeats _
  | first => exact (Expr.Progressive.seq_iff.mp ht).1
  | second => exact (Expr.Progressive.seq_iff.mp ht).2
  | left => exact (Expr.Progressive.alt_iff.mp ht).1
  | right => exact (Expr.Progressive.alt_iff.mp ht).2
  | star | next => exact (Expr.Progressive.star_iff.mp ht).2
  | opt | notAhead | others | rest => exact ht

theorem Asks.suffix (h : g.Asks t t') (ht : t.goal.expr.Progressive rules) :
    t'.text <:+ t.text := by
  have hrest {sp : Spacing} {e : Expr ρ} {s : List Char} {m : Match ρ}
      (he : g.Evaluates ⟨sp, .once e, s⟩ (some m)) (hte : e.Progressive rules) : m.rest <:+ s :=
    ⟨_, Expr.split_run g.splits_start? sp e (he.run_eq_some hg hte)⟩
  cases h with
  | rule | first | left | right | opt | star | notAhead => exact List.suffix_rfl
  | second ha =>
      exact (gap_suffix _ _).trans (hrest ha (Expr.Progressive.seq_iff.mp ht).1)
  | others he => exact hrest he (Expr.Progressive.star_iff.mp ht).2
  | next => exact gap_suffix _ _
  | rest he => exact (hrest he (Expr.Progressive.star_iff.mp ht).2).trans (gap_suffix _ _)

/-- **Every task asks for less.** -/
theorem Asks.less (h : g.Asks t t') (ht : t.goal.expr.Progressive rules) :
    Task.Less rules rank t' t := by
  have hlength : t'.text.length ≤ t.text.length := (h.suffix hg ht).length_le
  cases h with
  | @rule sp r s =>
      refine Task.less_of_level hlength (Nat.lt_of_le_of_lt (hg.level_body_le r) ?_)
      simp [Goal.expr, Expr.level, Expr.heads]
  | first => exact Task.less_of_part hlength Expr.heads_subset_seq (by simp [Goal.expr, Expr.size])
  | @second sp a b s m ha =>
      have hrun := ha.run_eq_some hg (Expr.Progressive.seq_iff.mp ht).1
      by_cases hleft : (Region.empty rules).left a = true
      · refine Task.less_of_length ?_
        have := hg.consumes hleft hrun
        have := length_rest_gap_le (ρ := ρ) sp m.rest
        simp only
        omega
      · -- the first part may take nothing, so the rules of the second may be entered at once
        refine Task.less_of_part hlength ?_ (by simp [Goal.expr, Expr.size])
        intro r hr
        simp only [Goal.expr, Expr.heads, if_neg hleft]
        exact List.mem_append_right _ hr
  | left =>
      exact Task.less_of_part hlength (List.subset_append_left _ _) (by simp [Goal.expr, Expr.size])
  | right =>
      exact Task.less_of_part hlength (List.subset_append_right _ _) (by simp [Goal.expr, Expr.size])
  | opt | star | next | notAhead =>
      exact Task.less_of_part hlength (List.Subset.refl _) (by simp [Goal.expr, Expr.size])
  | others he =>
      obtain ⟨hleft, hte⟩ := Expr.Progressive.star_iff.mp ht
      exact Task.less_of_length (hg.consumes hleft (he.run_eq_some hg hte))
  | rest he =>
      obtain ⟨hleft, hte⟩ := Expr.Progressive.star_iff.mp ht
      exact Task.less_of_length ((hg.consumes hleft).length_rest_lt (he.run_eq_some hg hte))

/-- No chain of tasks goes on for ever. -/
theorem acc_asks (t : Task ρ) (ht : t.goal.expr.Progressive rules) :
    Acc (fun t' t => g.Asks t t') t := by
  induction t using (Task.wellFounded_less rules rank).induction with
  | _ t ih => exact .intro t fun t' h => ih t' (h.less hg ht) (h.progressive hg ht)

/-! ## Every task comes to an end -/

omit hg in
/-- What the program finds is nothing or a match, and an evaluation of it is one of either. -/
theorem Evaluates.none_or_some (h : g.Evaluates ⟨sp, .once e, s⟩ (e.run g.start? sp s)) :
    (e.run g.start? sp s = none ∧ g.Evaluates ⟨sp, .once e, s⟩ none) ∨
      ∃ m, e.run g.start? sp s = some m ∧ g.Evaluates ⟨sp, .once e, s⟩ (some m) := by
  cases hm : e.run g.start? sp s with
  | none => exact .inl ⟨rfl, hm ▸ h⟩
  | some m => exact .inr ⟨m, rfl, hm ▸ h⟩

/-- A task has an evaluation if those have one that it asks for. -/
theorem evaluates_of_asks (ht : t.goal.expr.Progressive rules)
    (ih : ∀ {t'}, g.Asks t t' → g.Evaluates t' (t'.run g.start?)) :
    g.Evaluates t (t.run g.start?) := by
  obtain ⟨sp, goal, s⟩ := t
  cases goal with
  | once e =>
      cases e with
      | lit t => exact .lit sp t s
      | one p =>
          cases s with
          | nil => exact .oneAtEnd sp p
          | cons c s => exact .one sp p c s
      | rule r =>
          have hrule : g.Evaluates ⟨sp, .once (.rule r), s⟩ _ := .rule (ih .rule)
          have hrun : ((g.body r).run g.start? (g.kind r).spacing s).map (.wrap (g.kind r) r)
              = g.start? r s := (start?_eq hg.bounds hg.ranked r s).symm
          show g.Evaluates _ (g.start? r s)
          rw [← hrun]
          exact hrule
      | seq a b =>
          simp only [Task.run]
          rcases (ih .first).none_or_some with ⟨hm, ha⟩ | ⟨m, hm, ha⟩
          · rw [run_seq_of_none hm]
            exact .seqFails ha
          · rw [run_seq_of_some hm]
            exact .seq ha (ih (.second ha))
      | alt a b =>
          simp only [Task.run]
          rcases (ih .left).none_or_some with ⟨hm, ha⟩ | ⟨m, hm, ha⟩
          · rw [run_alt_of_none hm]
            exact .right ha (ih (.right ha))
          · rw [run_alt_of_some hm]
            exact .left ha
      | opt e => exact .opt (ih .opt)
      | star e =>
          simp only [Task.run, Expr.run_star]
          rcases (ih .star).none_or_some with ⟨hm, he⟩ | ⟨m, hm, he⟩
          · rw [hm]
            exact .starStops he
          · rw [hm]
            exact .star he (ih (.others he))
      | notAhead e =>
          simp only [Task.run, Expr.run]
          rcases (ih .notAhead).none_or_some with ⟨hm, he⟩ | ⟨m, hm, he⟩
          · rw [hm]
            exact .notAhead he
          · rw [hm]
            exact .ahead he
      | atEnd =>
          cases s with
          | nil => exact .atEnd sp
          | cons c s => exact .notAtEnd sp c s
  | again e =>
      obtain ⟨hleft, -⟩ := Expr.Progressive.star_iff.mp ht
      simp only [Task.run]
      rcases (ih .next).none_or_some with ⟨hm, he⟩ | ⟨m, hm, he⟩
      · rw [repetitions_of_none hm]
        exact .againStops he
      · rw [repetitions_of_some (hg.consumes hleft) hm]
        exact .again he (ih (.rest he))

/-- **Every task has an evaluation**, and it finds what the program finds. -/
theorem evaluates_run (t : Task ρ) (ht : t.goal.expr.Progressive rules) :
    g.Evaluates t (t.run g.start?) := by
  induction acc_asks hg t ht with
  | intro t _ ih => exact evaluates_of_asks hg ht fun h => ih _ h (h.progressive hg ht)

/-- A task comes to one thing only, which is what the program finds. -/
theorem evaluates_iff (ht : t.goal.expr.Progressive rules) :
    g.Evaluates t o ↔ t.run g.start? = o := by
  constructor
  · exact fun h => h.run_eq hg ht
  · rintro rfl
    exact evaluates_run hg t ht

/-! ## Rules inside rules -/

/-- On a path of tasks the text gets shorter, or no higher rules are entered. -/
theorem length_lt_or_level_le (h : Relation.ReflTransGen g.Asks t t')
    (ht : t.goal.expr.Progressive rules) :
    t'.goal.expr.Progressive rules ∧ t'.text <:+ t.text ∧
      (t'.text.length < t.text.length ∨
        t'.goal.expr.level rules rank ≤ t.goal.expr.level rules rank) := by
  induction h with
  | refl => exact ⟨ht, List.suffix_rfl, .inr (Nat.le_refl _)⟩
  | tail _ hlast ih =>
      obtain ⟨hprogressive, hsuffix, hless⟩ := ih
      have hlast_suffix := hlast.suffix hg hprogressive
      have hlength := hlast_suffix.length_le
      refine ⟨hlast.progressive hg hprogressive, hlast_suffix.trans hsuffix, ?_⟩
      rcases hless with hshorter | hlevel
      · exact .inl (Nat.lt_of_le_of_lt hlength hshorter)
      · have hlength' := hsuffix.length_le
        rcases Prod.lex_def.mp (hlast.less hg hprogressive) with hshorter | ⟨-, hlower⟩
        · exact .inl (Nat.lt_of_lt_of_le hshorter hlength')
        · refine .inr (Nat.le_trans ?_ hlevel)
          rcases Prod.lex_def.mp hlower with hlower | ⟨hsame, -⟩
          · exact Nat.le_of_lt hlower
          · exact Nat.le_of_eq hsame

/-- A rule that is entered from another one, at whatever distance, is entered behind a
character or has a lower rank. -/
theorem suffix_of_enters {sp' : Spacing} {r r' : ρ} {s' : List Char}
    (h : Relation.TransGen g.Asks ⟨sp, .once (.rule r), s⟩ ⟨sp', .once (.rule r'), s'⟩) :
    s' <:+ s ∧ (s'.length < s.length ∨ rank r' < rank r) := by
  obtain ⟨t, hbody, hpath⟩ := Relation.TransGen.head'_iff.mp h
  cases hbody
  obtain ⟨-, hsuffix, hless⟩ := length_lt_or_level_le hg hpath (hg.repeats r)
  refine ⟨hsuffix, hless.imp_right fun hlevel => ?_⟩
  have hrank := Expr.level_le_iff.mp (Nat.le_trans hlevel (hg.level_body_le r))
  exact hrank r' List.mem_cons_self

/-- **A rule comes back to itself only behind a character.** -/
theorem shorter_of_reenters {sp' : Spacing} {r : ρ} {s' : List Char}
    (h : Relation.TransGen g.Asks ⟨sp, .once (.rule r), s⟩ ⟨sp', .once (.rule r), s'⟩) :
    ∃ u, u ≠ [] ∧ s = u ++ s' := by
  obtain ⟨⟨u, rfl⟩, hless⟩ := suffix_of_enters hg h
  have hshorter := hless.resolve_right (Nat.lt_irrefl _)
  refine ⟨u, ?_, rfl⟩
  rintro rfl
  exact Nat.lt_irrefl _ hshorter

end Grammar

end Progress

end PictureTree
