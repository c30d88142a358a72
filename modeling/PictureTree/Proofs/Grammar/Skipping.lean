/-
# `Proofs.Grammar.Skipping` — gaps as expressions

What stands between the parts of a phrase is skipped by a function of its own, one
character after the other.  It is also what an expression matches, blanks and then
comments with the blanks behind them (`Expr.skipped`), each repetition as greedy as any
other.  So what is known of repetitions is known of gaps.
-/
import PictureTree.Proofs.Grammar.Fixpoint
import PictureTree.Proofs.Grammar.Running

namespace PictureTree

open Trailer

variable {ρ : Type}

namespace Expr

/-- As many blanks as there are. -/
def blanks : Expr ρ := .star (.one (.among [' ', '\t', '\r', '\n']))

/-- A comment, up to the end of its line. -/
def comment : Expr ρ := .seq (word "%") (.star (.one (.except ['\r', '\n'])))

/-- What is skipped between the parts of a phrase. -/
def skipped : Expr ρ := .seq blanks (.star (.seq comment blanks))

end Expr

/-! ## Gaps, blanks and comments at a time -/

/-- Blanks at the start, as a match. -/
def blanksAt (s : List Char) : Match ρ := ⟨s.takeWhile isSpace, s.dropWhile isSpace, []⟩

/-- A comment up to the end of its line, as a match of what is behind the percent sign. -/
def lineAt (s : List Char) : Match ρ :=
  ⟨s.takeWhile (!isLineEnd ·), s.dropWhile (!isLineEnd ·), []⟩

theorem splitTrivia_eq_blanks (s : List Char) : splitTrivia false s
    = (s.takeWhile isSpace ++ (splitTrivia false (s.dropWhile isSpace)).1,
        (splitTrivia false (s.dropWhile isSpace)).2) := by
  induction s with
  | nil => rfl
  | cons c s ih =>
      cases hc : isSpace c with
      | true =>
          have hstep : splitTrivia false (c :: s)
              = (c :: (splitTrivia false s).1, (splitTrivia false s).2) := by
            simp [splitTrivia, hc]
          rw [List.takeWhile_cons_of_pos hc, List.dropWhile_cons_of_pos hc, hstep, ih]
          rfl
      | false =>
          have hneg : ¬ isSpace c = true := by simp [hc]
          rw [List.takeWhile_cons_of_neg hneg, List.dropWhile_cons_of_neg hneg]
          rfl

/-- A comment ends where a line does, and the end of the line is a blank behind it. -/
theorem splitTrivia_eq_line (s : List Char) : splitTrivia true s
    = (s.takeWhile (!isLineEnd ·) ++ (splitTrivia false (s.dropWhile (!isLineEnd ·))).1,
        (splitTrivia false (s.dropWhile (!isLineEnd ·))).2) := by
  induction s with
  | nil => rfl
  | cons c s ih =>
      cases hc : isLineEnd c with
      | true =>
          have hspace := isSpace_of_isLineEnd hc
          have hline : (c == '\r' || c == '\n') = true := hc
          rw [List.takeWhile_cons_of_neg (by simp [hc]), List.dropWhile_cons_of_neg (by simp [hc])]
          simp [splitTrivia, hline, hspace]
      | false =>
          have hline : (c == '\r' || c == '\n') = false := hc
          have hstep : splitTrivia true (c :: s)
              = (c :: (splitTrivia true s).1, (splitTrivia true s).2) := by
            simp [splitTrivia, hline]
          rw [List.takeWhile_cons_of_pos (by simp [hc]), List.dropWhile_cons_of_pos (by simp [hc]),
            hstep, ih]
          rfl

theorem gap_eq_blanks (s : List Char) :
    (gap .loose s : Match ρ) = blanksAt s ++ gap .loose (s.dropWhile isSpace) := by
  rw [gap, splitTrivia_eq_blanks]
  rfl

theorem gap_eq_comment (s : List Char) : (gap .loose ('%' :: s) : Match ρ)
    = ⟨['%'], s, []⟩ ++ (lineAt s ++ gap .loose (s.dropWhile (!isLineEnd ·))) := by
  have hpercent : splitTrivia false ('%' :: s)
      = ('%' :: (splitTrivia true s).1, (splitTrivia true s).2) := rfl
  rw [gap, hpercent, splitTrivia_eq_line]
  rfl

/-! ## The expression -/

variable (g : Grammar ρ)

theorem run_blanks (s : List Char) : (Expr.blanks : Expr ρ).run g.start? .tight s
    = some (blanksAt s) := by
  have htest : (CharClass.among [' ', '\t', '\r', '\n']).test = isSpace := by
    funext c
    simp [CharClass.test, isSpace, Bool.or_assoc, beq_eq_decide]
  rw [Expr.blanks, Expr.run_star_one, htest]
  rfl

theorem run_comment (s : List Char) : (Expr.comment : Expr ρ).run g.start? .tight ('%' :: s)
    = some (⟨['%'], s, []⟩ ++ lineAt s) := by
  have htest : (CharClass.except ['\r', '\n']).test = (!isLineEnd ·) := by
    funext c
    simp [CharClass.test, isLineEnd, beq_eq_decide]
  have hline : (Expr.star (.one (.except ['\r', '\n'])) : Expr ρ).run g.start? .tight s
      = some (lineAt s) := by
    rw [Expr.run_star_one, htest]
    rfl
  exact Expr.run_seq_join (m := ⟨['%'], s, []⟩) rfl hline

/-- A comment with the blanks behind it. -/
abbrev commentAndBlanks : Expr ρ := .seq .comment .blanks

theorem consumes_commentAndBlanks :
    Consumes ((commentAndBlanks : Expr ρ).run g.start? .tight) := by
  have hbounds : (Region.empty fun _ : ρ => false).Bounds g := nofun
  exact consumes_start?_of_left hbounds rfl

theorem run_commentAndBlanks (s : List Char) :
    commentAndBlanks.run g.start? .tight ('%' :: s)
      = some (⟨['%'], s, []⟩ ++ lineAt s ++ blanksAt (s.dropWhile (!isLineEnd ·))) :=
  Expr.run_seq_join (run_comment g s) (run_blanks g _)

theorem run_commentAndBlanks_eq_none {s : List Char} (h : s.head? ≠ some '%') :
    commentAndBlanks.run g.start? .tight s = none := by
  have hpercent : (Expr.word "%" : Expr ρ).run g.start? .tight s = none := by
    cases s with
    | nil => rfl
    | cons c s =>
        have hc : '%' ≠ c := fun hc => h (by rw [← hc]; rfl)
        simp [Expr.word, Expr.run, Text.after?, hc]
  exact run_seq_of_none (run_seq_of_none hpercent)

theorem isSpace_head?_dropWhile (s : List Char) :
    ∀ c ∈ (s.dropWhile isSpace).head?, isSpace c = false := by
  intro c hc
  have h := List.head?_dropWhile_not isSpace s
  rwa [hc] at h

/-- Where no blank stands, comments come first. -/
theorem repetitions_commentAndBlanks {s : List Char} (h : ∀ c ∈ s.head?, isSpace c = false) :
    repetitions (commentAndBlanks.run g.start? .tight) .tight s = gap .loose s := by
  induction hn : s.length using Nat.strongRecOn generalizing s with
  | ind n ih =>
      by_cases hpercent : s.head? = some '%'
      · obtain ⟨s, rfl⟩ := List.head?_eq_some_iff.mp hpercent
        have hrun := run_commentAndBlanks g s
        have hshorter := consumes_commentAndBlanks g hrun
        have hothers := ih _ (hn ▸ hshorter) (isSpace_head?_dropWhile _) rfl
        rw [Expr.repetitions_tight_of_some (consumes_commentAndBlanks g) hrun]
        rw [gap_eq_comment, gap_eq_blanks, ← hothers]
        simp only [Match.append_assoc]
        rfl
      · have hnone : commentAndBlanks.run g.start? .tight (gap .tight s : Match ρ).rest = none :=
          run_commentAndBlanks_eq_none g hpercent
        rw [repetitions_of_none hnone]
        cases s with
        | nil => rfl
        | cons c s =>
            have hsolid : isSolid c = true := by
              have hspace := h c rfl
              have hc : c ≠ '%' := fun hc => hpercent (by rw [hc]; rfl)
              simp [isSolid, hspace, hc]
            exact (gap_of_isSolid hsolid .loose s).symm

/-- **What is skipped between two parts is what the expression matches.** -/
theorem run_skipped (s : List Char) :
    (Expr.skipped : Expr ρ).run g.start? .tight s = some (gap .loose s) := by
  have hcomments := Expr.run_star_tight (consumes_commentAndBlanks g) (s.dropWhile isSpace)
  rw [repetitions_commentAndBlanks g (isSpace_head?_dropWhile s)] at hcomments
  rw [gap_eq_blanks]
  exact Expr.run_seq_join (run_blanks g s) hcomments

end PictureTree
