/-
# `Proofs.Grammar.Trailing` — a text with one line more

What an expression matches at the start of a text may change when a line with
a word is put behind the text: the expression may have seen the end of the
text, and now it sees the word.  Here the two runs are compared, the one on a
text `u` and the one on `u` with the line:

    tied    both fail, or both match the same and the second leaves the line
    ends    both match the same up to blanks; the first leaves nothing, the
            second leaves the word
    lost    both leave a region that later parts of the grammar cannot leave

An expression is firm if its runs are tied, exact if they are tied or end, and
steady if they are tied or both lost.  Skipped blanks join the end of `u` and
the line, so at the end of a phrase the runs go on at the empty text and at the
word; there a firm expression fails in both.

A name asks that no letter follows, and asks it behind the blanks.  So it is at a
name with nothing but blanks behind it that the runs differ, and what may consist
of its name is exact, or steady, but there.

The laws below say how the parts of an expression decide for the whole.
-/
import Mathlib
import PictureTree.Proofs.Grammar.Matching

namespace PictureTree

variable {ρ : Type}

/-! ## The line behind a text -/

/-- A word that is put behind texts on a line of its own, names that the texts do
not end with and names that they do not hold, and a region that the line lies in. -/
structure Trailer (ρ : Type) where
  word : List Char
  isAlpha_word : ∀ c ∈ word, c.isAlpha = true
  bare : List (List Char)
  absent : List (List Char)
  lost : Region ρ
  lost_line : lost.holds ('\n' :: word)

theorem not_isSpace_of_isAlpha {c : Char} (h : c.isAlpha = true) :
    isSpace c = false ∧ (c == '%') = false := by
  constructor
  · refine Bool.eq_false_iff.mpr fun hs => ?_
    simp only [isSpace, Bool.or_eq_true, beq_iff_eq] at hs
    rcases hs with ((rfl | rfl) | rfl) | rfl <;>
      simp [Char.isAlpha, Char.isUpper, Char.isLower] at h
  · refine Bool.eq_false_iff.mpr fun hs => ?_
    rw [beq_iff_eq] at hs
    subst hs
    simp [Char.isAlpha, Char.isUpper, Char.isLower] at h

theorem splitTrivia_of_isAlpha {s : List Char} (h : ∀ c ∈ s, c.isAlpha = true) :
    splitTrivia false s = ([], s) := by
  cases s with
  | nil => rfl
  | cons c s =>
      obtain ⟨hspace, hpercent⟩ := not_isSpace_of_isAlpha (h c List.mem_cons_self)
      simp [splitTrivia, hspace, hpercent]

theorem gap_of_isAlpha (sp : Spacing) {s : List Char} (h : ∀ c ∈ s, c.isAlpha = true) :
    (gap sp s : Match ρ) = .nothing s := by
  cases sp with
  | tight => rfl
  | loose => simp [gap, splitTrivia_of_isAlpha h, Match.nothing]

/-- Whether a text is one of some names with blanks and comments behind it. -/
def startsAsEnd (names : List (List Char)) (u : List Char) : Bool :=
  names.any fun name => (Text.after? name u).any fun rest => (splitTrivia false rest).2.isEmpty

/-- Whether a text ends with one of some names, blanks and comments aside. -/
def endsIn (names : List (List Char)) : List Char → Bool
  | [] => startsAsEnd names []
  | c :: u => startsAsEnd names (c :: u) || endsIn names u

theorem startsAsEnd_iff {names : List (List Char)} {u : List Char} :
    startsAsEnd names u = true ↔
      ∃ t ∈ names, ∃ r, u = t ++ r ∧ (splitTrivia false r).2 = [] := by
  simp [startsAsEnd, Option.any_eq_true, Text.after?_eq_some]

theorem startsAsEnd_append {names : List (List Char)} {t r : List Char} (ht : t ∈ names)
    (hr : (splitTrivia false r).2 = []) : startsAsEnd names (t ++ r) = true :=
  startsAsEnd_iff.mpr ⟨t, ht, r, rfl, hr⟩

/-- Inside of a comment no less is skipped. -/
theorem splitTrivia_true_of_eq_nil {inComment : Bool} {s : List Char}
    (hs : (splitTrivia inComment s).2 = []) : (splitTrivia true s).2 = [] := by
  induction s generalizing inComment with
  | nil => rfl
  | cons c s ih =>
      cases hend : c == '\r' || c == '\n' with
      | true =>
          have hspace : isSpace c = true := by
            simp only [Bool.or_eq_true, beq_iff_eq] at hend
            rcases hend with rfl | rfl <;> rfl
          cases inComment <;> simpa [splitTrivia, hend, hspace] using hs
      | false =>
          rw [splitTrivia] at hs
          simp only [splitTrivia, hend]
          split at hs
          · cases hs
          · exact ih hs

theorem splitTrivia_append_of_eq_nil {inComment : Bool} {r s : List Char}
    (hr : (splitTrivia inComment r).2 = []) (hs : (splitTrivia false s).2 = []) :
    (splitTrivia inComment (r ++ s)).2 = [] := by
  induction r generalizing inComment with
  | nil =>
      cases inComment with
      | false => exact hs
      | true => exact splitTrivia_true_of_eq_nil hs
  | cons c r ih =>
      rw [List.cons_append, splitTrivia]
      rw [splitTrivia] at hr
      split at hr
      · cases hr
      · exact ih hr

/-- Blanks and comments behind a text do not change how it starts. -/
theorem startsAsEnd_append_of_eq_nil {names : List (List Char)} {u s : List Char}
    (h : startsAsEnd names u = true) (hs : (splitTrivia false s).2 = []) :
    startsAsEnd names (u ++ s) = true := by
  obtain ⟨t, ht, r, rfl, hr⟩ := startsAsEnd_iff.mp h
  rw [List.append_assoc]
  exact startsAsEnd_append ht (splitTrivia_append_of_eq_nil hr hs)

theorem startsAsEnd_of_endsIn {names : List (List Char)} {u : List Char}
    (h : endsIn names u = false) : startsAsEnd names u = false := by
  cases u with
  | nil => exact h
  | cons c u => exact (Bool.or_eq_false_iff.mp h).1

theorem endsIn_of_suffix {names : List (List Char)} {u v : List Char} (hu : endsIn names u = false)
    (h : v <:+ u) : endsIn names v = false := by
  obtain ⟨c, rfl⟩ := h
  induction c with
  | nil => exact hu
  | cons d c ih => exact ih (Bool.or_eq_false_iff.mp hu).2

namespace Match

/-- The match, with a text behind what it leaves. -/
def followedBy (t : List Char) (m : Match ρ) : Match ρ := { m with rest := m.rest ++ t }

@[simp] theorem rest_followedBy (t : List Char) (m : Match ρ) :
    (m.followedBy t).rest = m.rest ++ t := rfl

@[simp] theorem nodes_followedBy (t : List Char) (m : Match ρ) :
    (m.followedBy t).nodes = m.nodes := rfl

end Match

/-- Two runs that both fail, or that match the same where the second leaves `t`
behind what the first leaves. -/
def Tied (t : List Char) (x y : Option (Match ρ)) : Prop := y = x.map (Match.followedBy t)

theorem tied_none {t : List Char} : Tied t (none : Option (Match ρ)) none := rfl

theorem tied_some {t : List Char} (m : Match ρ) : Tied t (some m) (some (m.followedBy t)) := rfl

namespace Trailer

variable (T : Trailer ρ)

/-- The line. -/
def line : List Char := '\n' :: T.word

/-- A text that does not end with one of the first names, blanks and comments
aside, and holds none of the others. -/
structure Plain (u : List Char) : Prop where
  end_eq_false : endsIn T.bare u = false
  not_infix : ∀ t ∈ T.absent, ¬ t <:+: u

variable {T}

theorem Plain.of_suffix {u v : List Char} (hu : T.Plain u) (h : v <:+ u) : T.Plain v where
  end_eq_false := endsIn_of_suffix hu.end_eq_false h
  not_infix t ht hv := hu.not_infix t ht (hv.trans h.isInfix)

theorem Plain.behind_name {t r : List Char} (hu : T.Plain (t ++ r)) (ht : t ∈ T.bare) :
    (splitTrivia false r).2 ≠ [] := by
  intro hr
  have hstart := startsAsEnd_of_endsIn hu.end_eq_false
  rw [startsAsEnd_append ht hr] at hstart
  cases hstart

theorem splitTrivia_append_line (inComment : Bool) (u : List Char) :
    splitTrivia inComment (u ++ T.line)
        = ((splitTrivia inComment u).1, (splitTrivia inComment u).2 ++ T.line) ∧
          (splitTrivia inComment u).2 ≠ [] ∨
      ((splitTrivia inComment u).2 = [] ∧ (splitTrivia inComment (u ++ T.line)).2 = T.word) := by
  induction u generalizing inComment with
  | nil =>
      right
      cases inComment <;> simp [splitTrivia, line, isSpace, splitTrivia_of_isAlpha T.isAlpha_word]
  | cons c u ih =>
      rw [List.cons_append, splitTrivia, splitTrivia]
      split
      · exact .inl ⟨rfl, List.cons_ne_nil _ _⟩
      · next still _ =>
          rcases ih still with ⟨h, hrest⟩ | ⟨h, h'⟩
          · exact .inl ⟨by rw [h], hrest⟩
          · exact .inr ⟨h, h'⟩

/-- A gap stops where it stopped, or it ran to the end and now runs to the word. -/
theorem gap_append_line (sp : Spacing) (u : List Char) :
    ((gap sp (u ++ T.line) : Match ρ) = (gap sp u).followedBy T.line ∧
        (sp = .loose → (gap sp u : Match ρ).rest ≠ [])) ∨
      (sp = .loose ∧ (gap sp u : Match ρ).rest = [] ∧
        (gap sp (u ++ T.line) : Match ρ).rest = T.word) := by
  cases sp with
  | tight => exact .inl ⟨rfl, fun h => by cases h⟩
  | loose =>
      rcases T.splitTrivia_append_line false u with ⟨h, hrest⟩ | h
      · exact .inl ⟨by rw [gap, h]; rfl, fun _ => hrest⟩
      · exact .inr ⟨rfl, h⟩

/-- A gap that ran to the end runs to the word. -/
theorem gap_line_of_nil {u : List Char} (h : (gap .loose u : Match ρ).rest = []) :
    (gap .loose (u ++ T.line) : Match ρ).rest = T.word := by
  rcases gap_append_line (T := T) .loose u with ⟨-, hne⟩ | ⟨-, -, hword⟩
  · exact absurd h (hne rfl)
  · exact hword

/-! ## Kinds of expressions -/

variable (T)

/-- Two runs that match the same, to the end and to the word. -/
def Ends (x y : Option (Match ρ)) : Prop :=
  ∃ m n, x = some m ∧ y = some n ∧ m.rest = [] ∧ n.rest = T.word ∧ m.nodes = n.nodes

/-- A run that matches and leaves `Q` behind the next gap. -/
def Leaves (Q : List Char → Prop) (sp : Spacing) (x : Option (Match ρ)) : Prop :=
  ∃ m, x = some m ∧ Q (gap sp m.rest : Match ρ).rest

/-- Runs that are tied on every text; there is no match among letters. -/
structure Firm (f : List Char → Option (Match ρ)) : Prop where
  tied : ∀ {u}, T.Plain u → Tied T.line (f u) (f (u ++ T.line))
  none_of_isAlpha : ∀ {z}, (∀ c ∈ z, c.isAlpha = true) → f z = none

/-- Runs that are tied or end on every text, and agree at the end and at the word. -/
structure Exact (f : List Char → Option (Match ρ)) : Prop where
  outcome : ∀ {u}, T.Plain u →
    Tied T.line (f u) (f (u ++ T.line)) ∨ T.Ends (f u) (f (u ++ T.line))
  final : (f [] = none ∧ f T.word = none) ∨ T.Ends (f []) (f T.word)

/-- Runs that are tied, or both leave `Q`, on every text that is not of `P` from
the start.  Two properties, since what is left in front of a separator may be
lost only behind it. -/
structure Settled (P Q : List Char → Prop) (sp : Spacing) (f : List Char → Option (Match ρ)) :
    Prop where
  outcome : ∀ {u}, T.Plain u → Tied T.line (f u) (f (u ++ T.line)) ∨
    (Leaves Q sp (f u) ∧ Leaves Q sp (f (u ++ T.line))) ∨ (P u ∧ P (u ++ T.line))

/-- Runs that are tied, or both lost. -/
abbrev Steady (sp : Spacing) (f : List Char → Option (Match ρ)) : Prop :=
  T.Settled T.lost.holds T.lost.holds sp f

/-- Runs on one text that are settled there. -/
abbrev SettledAt (P Q : List Char → Prop) (sp : Spacing) (f : List Char → Option (Match ρ))
    (u : List Char) : Prop :=
  Tied T.line (f u) (f (u ++ T.line)) ∨
    (Leaves Q sp (f u) ∧ Leaves Q sp (f (u ++ T.line))) ∨ (P u ∧ P (u ++ T.line))

/-- Runs on one text that are tied, or both lost. -/
abbrev SteadyAt (sp : Spacing) (f : List Char → Option (Match ρ)) (u : List Char) : Prop :=
  T.SettledAt T.lost.holds T.lost.holds sp f u

/-- Runs that are tied or end, but on a name alone: there the first run takes the
name, and the second one may not. -/
structure ExactBut (t : List Char) (f : List Char → Option (Match ρ)) : Prop where
  outcome : ∀ {u}, T.Plain u → startsAsEnd [t] u = false →
    Tied T.line (f u) (f (u ++ T.line)) ∨ T.Ends (f u) (f (u ++ T.line))

/-- Runs that are tied, or both lost, but on a name alone. -/
structure SteadyBut (t : List Char) (sp : Spacing) (f : List Char → Option (Match ρ)) : Prop where
  outcome : ∀ {u}, T.Plain u → startsAsEnd [t] u = false → T.SteadyAt sp f u

variable {T}

theorem lost_of_suffix {u v : List Char} (hu : T.lost.holds u) (h : v <:+ u) : T.lost.holds v := by
  obtain ⟨c, rfl⟩ := h
  exact T.lost.part (a := c) (c := []) (by simpa using hu)

theorem lost_word : T.lost.holds T.word := lost_of_suffix T.lost_line ⟨['\n'], rfl⟩

theorem lost_nil : T.lost.holds [] := lost_of_suffix T.lost_line List.nil_suffix

theorem gap_suffix (sp : Spacing) (s : List Char) : (gap sp s : Match ρ).rest <:+ s :=
  ⟨_, split_gap sp s⟩

theorem gap_nil (sp : Spacing) : (gap sp [] : Match ρ).rest = [] := by cases sp <;> rfl

theorem gap_word (sp : Spacing) : (gap sp T.word : Match ρ).rest = T.word := by
  rw [gap_of_isAlpha sp T.isAlpha_word]
  rfl

theorem lost_of_some {f : List Char → Option (Match ρ)} (hf : Splits f) (sp : Spacing)
    {s : List Char} (hs : T.lost.holds s) {m : Match ρ} (hm : f s = some m) :
    T.lost.holds (gap sp m.rest : Match ρ).rest :=
  lost_of_suffix hs ((gap_suffix sp m.rest).trans ⟨_, hf hm⟩)

theorem Ends.leaves {Q : List Char → Prop} (hnil : Q []) (hword : Q T.word)
    {x y : Option (Match ρ)} (h : T.Ends x y) (sp : Spacing) : Leaves Q sp x ∧ Leaves Q sp y := by
  obtain ⟨m, n, rfl, rfl, hm, hn, -⟩ := h
  refine ⟨⟨m, rfl, ?_⟩, n, rfl, ?_⟩
  · rw [hm, gap_nil]
    exact hnil
  · rw [hn, gap_word]
    exact hword

theorem Firm.exact {f : List Char → Option (Match ρ)} (hf : T.Firm f) : T.Exact f where
  outcome hu := .inl (hf.tied hu)
  final := .inl ⟨hf.none_of_isAlpha (by simp), hf.none_of_isAlpha T.isAlpha_word⟩

theorem Exact.settled {P Q : List Char → Prop} (hnil : Q []) (hword : Q T.word)
    {f : List Char → Option (Match ρ)} (hf : T.Exact f) (sp : Spacing) : T.Settled P Q sp f where
  outcome hu := (hf.outcome hu).imp_right fun h => .inl (h.leaves hnil hword sp)

theorem Exact.steady {f : List Char → Option (Match ρ)} (hf : T.Exact f) (sp : Spacing) :
    T.Steady sp f :=
  hf.settled lost_nil lost_word sp

theorem ExactBut.steadyBut {t : List Char} {f : List Char → Option (Match ρ)}
    (hf : T.ExactBut t f) (sp : Spacing) : T.SteadyBut t sp f where
  outcome hu ht :=
    (hf.outcome hu ht).imp_right fun h => .inl (h.leaves lost_nil lost_word sp)

/-! ## One part behind another -/

/-- A match, the gap behind it, and a match behind that. -/
def join (sp : Spacing) (m n : Match ρ) : Match ρ := m ++ (gap sp m.rest ++ n)

theorem nodes_gap (sp : Spacing) (s : List Char) : (gap sp s : Match ρ).nodes = [] := by
  cases sp <;> rfl

theorem rest_join (sp : Spacing) (m n : Match ρ) : (join sp m n).rest = n.rest := rfl

theorem nodes_join (sp : Spacing) (m n : Match ρ) : (join sp m n).nodes = m.nodes ++ n.nodes := by
  simp [join, nodes_gap]

theorem tied_join {sp : Spacing} {m : Match ρ}
    (hgap : (gap sp (m.rest ++ T.line) : Match ρ) = (gap sp m.rest).followedBy T.line)
    {x y : Option (Match ρ)} (h : Tied T.line x y) :
    Tied T.line (x.map (join sp m)) (y.map (join sp (m.followedBy T.line))) := by
  rw [Tied] at h ⊢
  subst h
  cases x with
  | none => rfl
  | some n =>
      simp only [Option.map_some, join, Match.rest_followedBy, hgap]
      rfl

theorem Ends.join {sp : Spacing} {m n : Match ρ} (hnodes : m.nodes = n.nodes)
    {x y : Option (Match ρ)} (h : T.Ends x y) :
    T.Ends (x.map (join sp m)) (y.map (Trailer.join sp n)) := by
  obtain ⟨m', n', rfl, rfl, hm', hn', hnodes'⟩ := h
  exact ⟨_, _, rfl, rfl, hm', hn', by rw [nodes_join, nodes_join, hnodes, hnodes']⟩

theorem Leaves.map_join {Q : List Char → Prop} {sp : Spacing} {x : Option (Match ρ)}
    (h : Leaves Q sp x) (m : Match ρ) : Leaves Q sp (x.map (join sp m)) := by
  obtain ⟨n, rfl, hn⟩ := h
  exact ⟨_, rfl, hn⟩

section Closure

variable {call : ρ → List Char → Option (Match ρ)} {sp : Spacing} {a b e : Expr ρ}

theorem run_seq (s : List Char) : (Expr.seq a b).run call sp s = (a.run call sp s).bind fun m =>
    (b.run call sp (gap sp m.rest : Match ρ).rest).map (join sp m) := by
  simp only [Expr.run, bind, pure]
  cases a.run call sp s with
  | none => rfl
  | some m => cases hb : b.run call sp (gap sp m.rest : Match ρ).rest <;> simp [hb, join]

theorem run_seq_of_none {s : List Char} (h : a.run call sp s = none) :
    (Expr.seq a b).run call sp s = none := by
  rw [run_seq, h]
  rfl

theorem run_seq_of_some {s : List Char} {m : Match ρ} (h : a.run call sp s = some m) :
    (Expr.seq a b).run call sp s
      = (b.run call sp (gap sp m.rest : Match ρ).rest).map (join sp m) := by
  rw [run_seq, h]
  rfl

variable (hcall : ∀ r, Splits (call r))
include hcall

theorem plain_behind {u : List Char} (hu : T.Plain u) {m : Match ρ}
    (hm : e.run call sp u = some m) : T.Plain (gap sp m.rest : Match ρ).rest :=
  hu.of_suffix ((gap_suffix sp m.rest).trans ⟨_, Expr.split_run hcall sp e hm⟩)

omit hcall in
theorem run_seq_of_ends {s s' : List Char} (h : T.Ends (a.run call sp s) (a.run call sp s')) :
    ∃ m n : Match ρ, m.nodes = n.nodes ∧
      (Expr.seq a b).run call sp s = (b.run call sp []).map (join sp m) ∧
      (Expr.seq a b).run call sp s' = (b.run call sp T.word).map (join sp n) := by
  obtain ⟨m, n, hm, hn, hend, hword, hnodes⟩ := h
  refine ⟨m, n, hnodes, ?_, ?_⟩
  · rw [run_seq_of_some hm, hend, gap_nil]
  · rw [run_seq_of_some hn, hword, gap_word]

/-- Behind a first part that leaves the line, the second part starts at the same
place of the text in both runs, or at the end and at the word. -/
theorem run_seq_of_tied {u : List Char} (hu : T.Plain u)
    (ha : Tied T.line (a.run call sp u) (a.run call sp (u ++ T.line))) :
    ((Expr.seq a b).run call sp u = none ∧ (Expr.seq a b).run call sp (u ++ T.line) = none) ∨
    (∃ m v, (a.run call sp u = some m ∧ (gap sp m.rest : Match ρ).rest = v) ∧ T.Plain v ∧
      (gap sp (m.rest ++ T.line) : Match ρ) = (gap sp m.rest).followedBy T.line ∧
      (Expr.seq a b).run call sp u = (b.run call sp v).map (join sp m) ∧
      (Expr.seq a b).run call sp (u ++ T.line)
        = (b.run call sp (v ++ T.line)).map (join sp (m.followedBy T.line))) ∨
    ∃ m n : Match ρ, sp = .loose ∧ a.run call sp u = some m ∧ (gap sp m.rest : Match ρ).rest = [] ∧
      m.nodes = n.nodes ∧ (Expr.seq a b).run call sp u = (b.run call sp []).map (join sp m) ∧
      (Expr.seq a b).run call sp (u ++ T.line) = (b.run call sp T.word).map (join sp n) := by
  cases hm : a.run call sp u with
  | none =>
      rw [Tied, hm] at ha
      exact .inl ⟨run_seq_of_none hm, run_seq_of_none ha⟩
  | some m =>
      rw [Tied, hm] at ha
      rw [run_seq_of_some hm, run_seq_of_some ha, Match.rest_followedBy]
      rcases gap_append_line sp m.rest with ⟨hgap, -⟩ | ⟨hsp, hend, hword⟩
      · exact .inr (.inl ⟨m, _, ⟨rfl, rfl⟩, plain_behind hcall hu hm, hgap, rfl, by rw [hgap]; rfl⟩)
      · exact .inr (.inr ⟨m, m.followedBy T.line, hsp, rfl, hend, rfl, by rw [hend], by rw [hword]⟩)

/-- A sequence fails where its second part fails wherever the first may end. -/
theorem run_seq_eq_none {P : List Char → Prop} (hP : ∀ {s t}, P s → t <:+ s → P t)
    (hb : ∀ s, P s → b.run call sp s = none) {s : List Char} (hs : P s) :
    (Expr.seq a b).run call sp s = none := by
  cases hm : a.run call sp s with
  | none => exact run_seq_of_none hm
  | some m =>
      rw [run_seq_of_some hm, hb _ (hP hs ((gap_suffix sp m.rest).trans
        ⟨_, Expr.split_run hcall sp a hm⟩))]
      rfl

omit hcall in
/-- A second part that is exact, at the end and at the word. -/
theorem Exact.map_join (hb : T.Exact (b.run call sp)) {m n : Match ρ} (h : m.nodes = n.nodes) :
    ((b.run call sp []).map (join sp m) = none ∧ (b.run call sp T.word).map (join sp n) = none) ∨
      T.Ends ((b.run call sp []).map (join sp m)) ((b.run call sp T.word).map (join sp n)) := by
  rcases hb.final with ⟨hnone, hnone'⟩ | hends
  · rw [hnone, hnone']
    exact .inl ⟨rfl, rfl⟩
  · exact .inr (hends.join h)

/-- Behind a part that leaves the line, a part that is exact. -/
theorem Exact.seq_of_tied (hb : T.Exact (b.run call sp)) {u : List Char} (hu : T.Plain u)
    (ha : Tied T.line (a.run call sp u) (a.run call sp (u ++ T.line))) :
    Tied T.line ((Expr.seq a b).run call sp u) ((Expr.seq a b).run call sp (u ++ T.line)) ∨
      T.Ends ((Expr.seq a b).run call sp u) ((Expr.seq a b).run call sp (u ++ T.line)) := by
  rcases run_seq_of_tied hcall hu ha with
    ⟨hx, hy⟩ | ⟨m, v, -, hv, hgap, hx, hy⟩ | ⟨m, n, -, -, -, hnodes, hx, hy⟩
  · rw [hx, hy]
    exact .inl tied_none
  · rw [hx, hy]
    have hnodes : m.nodes = (m.followedBy T.line).nodes := rfl
    exact (hb.outcome hv).imp (tied_join hgap) (Ends.join hnodes)
  · rw [hx, hy]
    exact (hb.map_join hnodes).imp_left fun ⟨hnone, hnone'⟩ => by rw [hnone, hnone']; rfl

theorem Exact.seq (ha : T.Exact (a.run call sp)) (hb : T.Exact (b.run call sp)) :
    T.Exact ((Expr.seq a b).run call sp) where
  outcome hu := by
    rcases ha.outcome hu with htied | h
    · exact hb.seq_of_tied hcall hu htied
    · obtain ⟨m, n, hnodes, hx, hy⟩ := run_seq_of_ends h
      rw [hx, hy]
      exact (hb.map_join hnodes).imp_left fun ⟨hnone, hnone'⟩ => by rw [hnone, hnone']; rfl
  final := by
    rcases ha.final with ⟨hnone, hnone'⟩ | h
    · exact .inl ⟨run_seq_of_none hnone, run_seq_of_none hnone'⟩
    · obtain ⟨m, n, hnodes, hx, hy⟩ := run_seq_of_ends h
      rw [hx, hy]
      exact hb.map_join hnodes

theorem run_seq_of_isAlpha (hb : T.Firm (b.run call sp)) {s : List Char}
    (hs : ∀ c ∈ s, c.isAlpha = true) : (Expr.seq a b).run call sp s = none :=
  run_seq_eq_none hcall (P := fun s => ∀ c ∈ s, c.isAlpha = true)
    (fun hs ht c hc => hs c (ht.subset hc)) (fun _ hs => hb.none_of_isAlpha hs) hs

omit hcall in
theorem Firm.map_join (hb : T.Firm (b.run call sp)) (m n : Match ρ) :
    Tied T.line ((b.run call sp []).map (join sp m)) ((b.run call sp T.word).map (join sp n)) := by
  rw [hb.none_of_isAlpha (by simp), hb.none_of_isAlpha T.isAlpha_word]
  rfl

theorem tied_seq_firm (hb : T.Firm (b.run call sp)) {u : List Char} (hu : T.Plain u)
    (ha : Tied T.line (a.run call sp u) (a.run call sp (u ++ T.line))) :
    Tied T.line ((Expr.seq a b).run call sp u) ((Expr.seq a b).run call sp (u ++ T.line)) := by
  rcases run_seq_of_tied hcall hu ha with
    ⟨hx, hy⟩ | ⟨m, v, -, hv, hgap, hx, hy⟩ | ⟨m, n, -, -, -, -, hx, hy⟩
  · rw [hx, hy]
    exact tied_none
  · rw [hx, hy]
    exact tied_join hgap (hb.tied hv)
  · rw [hx, hy]
    exact hb.map_join m n

theorem Exact.seq_firm (ha : T.Exact (a.run call sp)) (hb : T.Firm (b.run call sp)) :
    T.Firm ((Expr.seq a b).run call sp) where
  tied hu := by
    rcases ha.outcome hu with htied | h
    · exact tied_seq_firm hcall hb hu htied
    · obtain ⟨m, n, -, hx, hy⟩ := run_seq_of_ends h
      rw [hx, hy]
      exact hb.map_join m n
  none_of_isAlpha := run_seq_of_isAlpha hcall hb

omit hcall in
theorem run_seq_of_leaves {Q : List Char → Prop} (hb : ∀ s, Q s → b.run call sp s = none)
    {s : List Char} (h : Leaves Q sp (a.run call sp s)) :
    (Expr.seq a b).run call sp s = none := by
  obtain ⟨m, hm, hrest⟩ := h
  rw [run_seq_of_some hm, hb _ hrest]
  rfl

/-- Behind a part that may be lost, a part that leaves the lost region. -/
theorem Steady.seq_firm (ha : T.Steady sp (a.run call sp)) (hb : T.Firm (b.run call sp))
    (hlost : ∀ s, T.lost.holds s → b.run call sp s = none) :
    T.Firm ((Expr.seq a b).run call sp) where
  tied hu := by
    rcases ha.outcome hu with htied | ⟨hx, hy⟩ | ⟨hx, hy⟩
    · exact tied_seq_firm hcall hb hu htied
    · rw [run_seq_of_leaves hlost hx, run_seq_of_leaves hlost hy]
      exact tied_none
    · rw [run_seq_eq_none hcall lost_of_suffix hlost hx,
        run_seq_eq_none hcall lost_of_suffix hlost hy]
      exact tied_none
  none_of_isAlpha := run_seq_of_isAlpha hcall hb

/-- Behind a part that may leave `Q`, a part that fails on all texts or on none,
and leaves `R` from `Q`. -/
theorem Settled.seq {P Q R : List Char → Prop} (hnil : Q []) (hword : Q T.word)
    (ha : T.Settled P Q sp (a.run call sp)) (hb : T.Settled Q R sp (b.run call sp))
    (hsame : ∀ s s', (b.run call sp s).isSome = (b.run call sp s').isSome)
    (hstep : ∀ {s m}, Q s → b.run call sp s = some m → R (gap sp m.rest : Match ρ).rest) :
    T.Settled P R sp ((Expr.seq a b).run call sp) := by
  have hboth : ∀ {s s' : List Char}, Q s → Q s' → ∀ m n : Match ρ,
      Tied T.line ((b.run call sp s).map (join sp m)) ((b.run call sp s').map (join sp n)) ∨
        (Leaves R sp ((b.run call sp s).map (join sp m)) ∧
          Leaves R sp ((b.run call sp s').map (join sp n))) := by
    intro s s' hs hs' m n
    have hsame := hsame s s'
    cases hx : b.run call sp s with
    | none =>
        cases hy : b.run call sp s' with
        | none => exact .inl tied_none
        | some y => simp [hx, hy] at hsame
    | some x =>
        cases hy : b.run call sp s' with
        | none => simp [hx, hy] at hsame
        | some y =>
            exact .inr ⟨Leaves.map_join ⟨x, rfl, hstep hs hx⟩ m,
              Leaves.map_join ⟨y, rfl, hstep hs' hy⟩ n⟩
  refine ⟨fun hu => ?_⟩
  rcases ha.outcome hu with htied | ⟨⟨m, hm, hs⟩, n, hn, hs'⟩ | h
  · rcases run_seq_of_tied hcall hu htied with
      ⟨hx, hy⟩ | ⟨m, v, -, hv, hgap, hx, hy⟩ | ⟨m, n, -, -, -, -, hx, hy⟩
    · rw [hx, hy]
      exact .inl tied_none
    · rw [hx, hy]
      rcases hb.outcome hv with h | ⟨hxs, hys⟩ | ⟨hs, hs'⟩
      · exact .inl (tied_join hgap h)
      · exact .inr (.inl ⟨hxs.map_join m, hys.map_join _⟩)
      · exact (hboth hs hs' _ _).imp_right .inl
    · rw [hx, hy]
      exact (hboth hnil hword m n).imp_right .inl
  · rw [run_seq_of_some hm, run_seq_of_some hn]
    exact (hboth hs hs' m n).imp_right .inl
  · exact .inr (.inr h)

theorem Steady.seq (ha : T.Steady sp (a.run call sp)) (hb : T.Steady sp (b.run call sp))
    (hsame : ∀ s s', (b.run call sp s).isSome = (b.run call sp s').isSome) :
    T.Steady sp ((Expr.seq a b).run call sp) :=
  Settled.seq hcall lost_nil lost_word ha hb hsame fun hs hm =>
    lost_of_some (Expr.split_run hcall sp b) sp hs hm

/-! ## Choices and optional parts -/

omit hcall

theorem run_alt_of_none {s : List Char} (h : a.run call sp s = none) :
    (Expr.alt a b).run call sp s = b.run call sp s := by
  simp [Expr.run, h]

theorem run_alt_of_some {s : List Char} {m : Match ρ} (h : a.run call sp s = some m) :
    (Expr.alt a b).run call sp s = some m := by
  simp [Expr.run, h]

/-- A choice goes the same way in both runs, if its first part is tied. -/
theorem run_alt_of_tied {s t u : List Char} (ha : Tied t (a.run call sp s) (a.run call sp u)) :
    Tied t ((Expr.alt a b).run call sp s) ((Expr.alt a b).run call sp u) ∨
      ((Expr.alt a b).run call sp s = b.run call sp s ∧
        (Expr.alt a b).run call sp u = b.run call sp u) := by
  cases hm : a.run call sp s with
  | none =>
      rw [Tied, hm] at ha
      exact .inr ⟨run_alt_of_none hm, run_alt_of_none ha⟩
  | some m =>
      rw [Tied, hm] at ha
      rw [run_alt_of_some hm, run_alt_of_some ha]
      exact .inl (tied_some m)

theorem tied_alt {s t u : List Char} (ha : Tied t (a.run call sp s) (a.run call sp u))
    (hb : Tied t (b.run call sp s) (b.run call sp u)) :
    Tied t ((Expr.alt a b).run call sp s) ((Expr.alt a b).run call sp u) := by
  rcases run_alt_of_tied (b := b) ha with h | ⟨hx, hy⟩
  · exact h
  · rw [hx, hy]
    exact hb

theorem Firm.alt (ha : T.Firm (a.run call sp)) (hb : T.Firm (b.run call sp)) :
    T.Firm ((Expr.alt a b).run call sp) where
  tied hu := tied_alt (ha.tied hu) (hb.tied hu)
  none_of_isAlpha hz := by rw [run_alt_of_none (ha.none_of_isAlpha hz), hb.none_of_isAlpha hz]

theorem SettledAt.alt {P Q : List Char → Prop} {u : List Char}
    (ha : T.SettledAt P Q sp (a.run call sp) u) (hb : T.SettledAt P Q sp (b.run call sp) u) :
    T.SettledAt P Q sp ((Expr.alt a b).run call sp) u := by
  rcases ha with htied | ⟨⟨m, hm, hs⟩, n, hn, hs'⟩ | h
  · rcases run_alt_of_tied (b := b) htied with h | ⟨hx, hy⟩
    · exact .inl h
    · rw [SettledAt, hx, hy]
      exact hb
  · rw [SettledAt, run_alt_of_some hm, run_alt_of_some hn]
    exact .inr (.inl ⟨⟨m, rfl, hs⟩, n, rfl, hs'⟩)
  · exact .inr (.inr h)

/-- What failures have in common, and choices have if their parts have it, is
common to choices of any length. -/
theorem run_alts_of_closed {R : Option (Match ρ) → Option (Match ρ) → Prop} {s s' : List Char}
    (hnone : R none none)
    (halt : ∀ {a b : Expr ρ}, R (a.run call sp s) (a.run call sp s') →
      R (b.run call sp s) (b.run call sp s') →
        R ((Expr.alt a b).run call sp s) ((Expr.alt a b).run call sp s'))
    {es : List (Expr ρ)} (h : ∀ e ∈ es, R (e.run call sp s) (e.run call sp s')) :
    R ((Expr.alts es).run call sp s) ((Expr.alts es).run call sp s') := by
  induction es with
  | nil =>
      have hrun : ∀ s, (Expr.alts []).run call sp s = none := by
        rintro (_ | ⟨c, s⟩) <;> rfl
      rw [hrun, hrun]
      exact hnone
  | cons e es ih =>
      have ih := ih fun e he => h e (List.mem_cons_of_mem _ he)
      cases es with
      | nil => exact h e List.mem_cons_self
      | cons e' es => exact halt (h e List.mem_cons_self) ih

theorem Settled.alt {P Q : List Char → Prop} (ha : T.Settled P Q sp (a.run call sp))
    (hb : T.Settled P Q sp (b.run call sp)) : T.Settled P Q sp ((Expr.alt a b).run call sp) :=
  ⟨fun hu => SettledAt.alt (ha.outcome hu) (hb.outcome hu)⟩

theorem tied_opt {s t u : List Char} (h : Tied t (e.run call sp s) (e.run call sp u))
    (hu : u = s ++ t) : Tied t ((Expr.opt e).run call sp s) ((Expr.opt e).run call sp u) := by
  rw [Tied] at h ⊢
  subst hu
  cases hm : e.run call sp s with
  | none => simp [Expr.run, h, hm, Match.nothing, Match.followedBy]
  | some m => simp [Expr.run, h, hm]

theorem run_opt_of_some {s : List Char} {m : Match ρ} (h : e.run call sp s = some m) :
    (Expr.opt e).run call sp s = some m := by
  simp [Expr.run, h]

theorem run_opt_of_none {s : List Char} (h : e.run call sp s = none) :
    (Expr.opt e).run call sp s = some (.nothing s) := by
  simp [Expr.run, h]

theorem ends_nothing : T.Ends (some (.nothing [] : Match ρ)) (some (.nothing T.word)) :=
  ⟨_, _, rfl, rfl, rfl, rfl, rfl⟩

theorem Firm.opt (he : T.Firm (e.run call sp)) : T.Exact ((Expr.opt e).run call sp) where
  outcome hu := .inl (tied_opt (he.tied hu) rfl)
  final := by
    rw [run_opt_of_none (he.none_of_isAlpha (by simp)),
      run_opt_of_none (he.none_of_isAlpha T.isAlpha_word)]
    exact .inr ends_nothing

theorem Settled.opt {P Q : List Char → Prop} (he : T.Settled P Q sp (e.run call sp)) :
    T.Settled P Q sp ((Expr.opt e).run call sp) := by
  refine ⟨fun hu => ?_⟩
  rcases he.outcome hu with htied | ⟨⟨m, hm, hs⟩, n, hn, hs'⟩ | h
  · exact .inl (tied_opt htied rfl)
  · rw [run_opt_of_some hm, run_opt_of_some hn]
    exact .inr (.inl ⟨⟨m, rfl, hs⟩, n, rfl, hs'⟩)
  · exact .inr (.inr h)

theorem Firm.final {f : List Char → Option (Match ρ)} (hf : T.Firm f) :
    f [] = none ∧ f T.word = none :=
  ⟨hf.none_of_isAlpha (by simp), hf.none_of_isAlpha T.isAlpha_word⟩

/-! ## Literals, classes and names -/

theorem after?_append_line {t : List Char} (ht : '\n' ∉ t) (u : List Char) :
    Text.after? t (u ++ T.line) = (Text.after? t u).map (· ++ T.line) := by
  induction t generalizing u with
  | nil => rfl
  | cons c t ih =>
      obtain ⟨hc, ht⟩ := not_or.mp (mt List.mem_cons.mpr ht)
      cases u with
      | nil => simp [Text.after?, line, Ne.symm hc]
      | cons d u =>
          simp only [List.cons_append, Text.after?]
          split
          · exact ih ht u
          · rfl

theorem tied_lit {t : List Char} (ht : '\n' ∉ t) (u : List Char) :
    Tied T.line ((Expr.lit t).run call sp u) ((Expr.lit t).run call sp (u ++ T.line)) := by
  rw [Tied]
  simp only [Expr.run, after?_append_line ht]
  cases Text.after? t u <;> rfl

theorem Firm.lit {t : List Char} (ht : '\n' ∉ t) {c : Char} (hc : c ∈ t)
    (hletter : c.isAlpha = false) : T.Firm ((Expr.lit t).run call sp) where
  tied _ := tied_lit ht _
  none_of_isAlpha {z} hz := by
    cases hrest : Text.after? t z with
    | none => simp [Expr.run, hrest]
    | some rest =>
        obtain rfl := Text.after?_eq_some.mp hrest
        have := hz c (List.mem_append_left _ hc)
        rw [hletter] at this
        cases this

theorem steady_one (p : CharClass) : T.Steady sp ((Expr.one p).run call sp) := by
  refine ⟨fun {u} _ => ?_⟩
  cases u with
  | nil => exact .inr (.inr ⟨lost_nil, T.lost_line⟩)
  | cons c u =>
      refine .inl ?_
      simp only [List.cons_append, Expr.run]
      split
      · exact tied_some _
      · exact tied_none

theorem tied_notAhead {s t u : List Char} (h : Tied t (e.run call sp s) (e.run call sp u))
    (hu : u = s ++ t) :
    Tied t ((Expr.notAhead e).run call sp s) ((Expr.notAhead e).run call sp u) := by
  rw [Tied] at h ⊢
  subst hu
  cases hm : e.run call sp s with
  | none => simp [Expr.run, h, hm, Match.nothing, Match.followedBy]
  | some m => simp [Expr.run, h, hm]

theorem eq_nothing_of_run_notAhead {s : List Char} {m : Match ρ}
    (h : (Expr.notAhead e).run call sp s = some m) : m = .nothing s := by
  cases hk : e.run call sp s with
  | none => simpa [Expr.run, hk, eq_comm] using h
  | some k => simp [Expr.run, hk] at h

theorem tied_one {p : CharClass} (hp : p.test '\n' = false) (u : List Char) :
    Tied T.line ((Expr.one p).run call sp u) ((Expr.one p).run call sp (u ++ T.line)) := by
  cases u with
  | nil => simp [Tied, Expr.run, line, hp]
  | cons c u =>
      simp only [List.cons_append, Expr.run]
      split
      · exact tied_some _
      · exact tied_none

/-- A literal that no letter follows. -/
abbrev nameOf (t : List Char) : Expr ρ := .seq (.lit t) (.notAhead (.one .letter))

/-- In front of letters only a name matches with nothing behind it. -/
theorem rest_of_run_nameOf {t r : List Char} (hr : ∀ c ∈ (gap sp r : Match ρ).rest, c.isAlpha = true)
    {m : Match ρ} (hm : (nameOf t).run call sp (t ++ r) = some m) :
    (gap sp r : Match ρ).rest = [] ∧ m.rest = [] := by
  have hlit : (Expr.lit t).run call sp (t ++ r) = some ⟨t, r, []⟩ := by
    have hafter : Text.after? t (t ++ r) = some r := Text.after?_eq_some.mpr rfl
    rw [Expr.run, hafter]
    rfl
  rw [nameOf, run_seq_of_some hlit] at hm
  obtain ⟨k, hk, rfl⟩ := Option.map_eq_some_iff.mp hm
  obtain rfl := eq_nothing_of_run_notAhead hk
  rw [rest_join]
  cases hrest : (gap sp r : Match ρ).rest with
  | nil => exact ⟨rfl, rfl⟩
  | cons c z =>
      have hc : c.isAlpha = true := hr c (by rw [hrest]; exact List.mem_cons_self)
      simp only [hrest] at hk
      simp [Expr.run, CharClass.test, hc] at hk

/-- A name whose runs are not tied has only blanks behind it. -/
theorem tied_nameOf_or (hcall : ∀ r, Splits (call r)) {t : List Char} (ht : '\n' ∉ t)
    {u : List Char} (hu : T.Plain u) :
    Tied T.line ((nameOf t).run call sp u) ((nameOf t).run call sp (u ++ T.line)) ∨
      ∃ r, sp = .loose ∧ u = t ++ r ∧ (gap .loose r : Match ρ).rest = [] := by
  rcases run_seq_of_tied (b := .notAhead (.one .letter)) hcall hu (tied_lit ht u) with
    ⟨hx, hy⟩ | ⟨m, v, -, hv, hgap, hx, hy⟩ | ⟨m, n, hsp, hm, hend, -⟩
  · rw [nameOf, hx, hy]
    exact .inl tied_none
  · rw [nameOf, hx, hy]
    exact .inl (tied_join hgap (tied_notAhead (tied_one rfl v) rfl))
  · obtain ⟨r, hr, rfl⟩ := Option.map_eq_some_iff.mp hm
    exact .inr ⟨r, hsp, Text.after?_eq_some.mp hr, hsp ▸ hend⟩

theorem Firm.name (hcall : ∀ r, Splits (call r)) {t : List Char} (ht : '\n' ∉ t)
    (hbare : t ∈ T.bare) {c : Char} (hc : c ∈ t) (hletter : c.isAlpha = false) :
    T.Firm ((nameOf t).run call .loose) where
  tied hu := by
    rcases tied_nameOf_or hcall ht hu with h | ⟨r, -, hr, hend⟩
    · exact h
    · exact absurd hend ((hr ▸ hu).behind_name hbare)
  none_of_isAlpha hz := run_seq_of_none ((Firm.lit (T := T) ht hc hletter).none_of_isAlpha hz)

/-- What starts with a name that texts do not hold matches nothing. -/
theorem Firm.absent_seq {t : List Char} (ht : '\n' ∉ t) (habsent : t ∈ T.absent) {c : Char}
    (hc : c ∈ t) (hletter : c.isAlpha = false) :
    T.Firm ((Expr.seq (nameOf t) b).run call sp) where
  tied {u} hu := by
    have hnone : Text.after? t u = none := by
      refine Option.eq_none_iff_forall_ne_some.mpr fun r hr => hu.not_infix t habsent ?_
      exact ⟨[], r, (Text.after?_eq_some.mp hr).symm⟩
    have hlit : (Expr.lit t).run call sp u = none := by
      rw [Expr.run, hnone]
      rfl
    have htied : Tied T.line ((Expr.lit t).run call sp u)
        ((Expr.lit t).run call sp (u ++ T.line)) := tied_lit ht u
    rw [Tied, hlit] at htied
    rw [run_seq_of_none (run_seq_of_none hlit), run_seq_of_none (run_seq_of_none htied)]
    exact tied_none
  none_of_isAlpha hz :=
    run_seq_of_none (run_seq_of_none ((Firm.lit (T := T) ht hc hletter).none_of_isAlpha hz))

theorem ExactBut.name (hcall : ∀ r, Splits (call r)) {t : List Char} (ht : '\n' ∉ t) :
    T.ExactBut t ((nameOf t).run call sp) where
  outcome hu hname := by
    rcases tied_nameOf_or hcall ht hu with h | ⟨r, -, rfl, hend⟩
    · exact .inl h
    · rw [startsAsEnd_append List.mem_cons_self hend] at hname
      cases hname

theorem ExactBut.name_seq (hcall : ∀ r, Splits (call r)) {t : List Char} (ht : '\n' ∉ t)
    (hb : T.Exact (b.run call sp)) : T.ExactBut t ((Expr.seq (nameOf t) b).run call sp) where
  outcome hu hname := by
    rcases tied_nameOf_or hcall ht hu with h | ⟨r, -, rfl, hend⟩
    · exact hb.seq_of_tied hcall hu h
    · rw [startsAsEnd_append List.mem_cons_self hend] at hname
      cases hname

/-- Behind a name a part that fails at the end: the only place where a name sees
the line is one where the part behind it fails. -/
theorem run_name_seq (hcall : ∀ r, Splits (call r)) {t : List Char} (ht : '\n' ∉ t)
    (hb : b.run call sp [] = none) {u : List Char} (hu : T.Plain u) :
    Tied T.line ((nameOf t).run call sp u) ((nameOf t).run call sp (u ++ T.line)) ∨
      ((Expr.seq (nameOf t) b).run call sp u = none ∧
        (Expr.seq (nameOf t) b).run call sp (u ++ T.line) = none) := by
  have hnone : ∀ r, (∀ c ∈ (gap sp r : Match ρ).rest, c.isAlpha = true) →
      (Expr.seq (nameOf t) b).run call sp (t ++ r) = none := by
    intro r hr
    cases hm : (nameOf t).run call sp (t ++ r) with
    | none => exact run_seq_of_none hm
    | some m =>
        rw [run_seq_of_some hm, (rest_of_run_nameOf hr hm).2, gap_nil, hb]
        rfl
  refine (tied_nameOf_or hcall ht hu).imp_right ?_
  rintro ⟨r, rfl, rfl, hend⟩
  refine ⟨hnone r (by simp [hend]), ?_⟩
  rw [List.append_assoc]
  exact hnone _ (by rw [gap_line_of_nil hend]; exact T.isAlpha_word)

theorem Exact.name_seq (hcall : ∀ r, Splits (call r)) {t : List Char} (ht : '\n' ∉ t) {c : Char}
    (hc : c ∈ t) (hletter : c.isAlpha = false) (hb : T.Exact (b.run call sp))
    (hfinal : b.run call sp [] = none) :
    T.Exact ((Expr.seq (nameOf t) b).run call sp) where
  outcome hu := by
    rcases run_name_seq hcall ht hfinal hu with htied | ⟨hx, hy⟩
    · exact hb.seq_of_tied hcall hu htied
    · rw [hx, hy]
      exact .inl tied_none
  final := by
    have hlit : T.Firm ((Expr.lit t).run call sp) := Firm.lit ht hc hletter
    exact .inl ⟨run_seq_of_none (run_seq_of_none hlit.final.1),
      run_seq_of_none (run_seq_of_none hlit.final.2)⟩

theorem Firm.name_seq (hcall : ∀ r, Splits (call r)) {t : List Char} (ht : '\n' ∉ t)
    (hb : T.Firm (b.run call sp)) : T.Firm ((Expr.seq (nameOf t) b).run call sp) where
  tied hu := by
    rcases run_name_seq hcall ht hb.final.1 hu with htied | ⟨hx, hy⟩
    · exact tied_seq_firm hcall hb hu htied
    · rw [hx, hy]
      exact tied_none
  none_of_isAlpha := run_seq_of_isAlpha hcall hb

end Closure

end Trailer

end PictureTree
