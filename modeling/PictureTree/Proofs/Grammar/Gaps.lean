/-
# `Proofs.Grammar.Gaps` — what a gap skips

A gap runs to the first solid character, one that is neither a blank nor the
start of a comment.  Blanks and comments that are complete, each with the end of
its line, may be put in front of any text: a gap skips them and goes on.

    a solid character ends a gap   `gap_of_isSolid`
    complete comments are skipped  `Closed.rest_gap_append`
    nothing else is skipped        `closed_of_gap`
-/
import PictureTree.Proofs.Grammar.Trailing

namespace PictureTree

variable {ρ : Type}

/-- Whether a character is neither a blank nor the start of a comment. -/
def isSolid (c : Char) : Bool := !isSpace c && c != '%'

theorem isSolid_of_isAlpha {c : Char} (h : c.isAlpha = true) : isSolid c = true := by
  obtain ⟨hspace, hpercent⟩ := not_isSpace_of_isAlpha h
  simp only [isSolid, hspace, bne, hpercent, Bool.not_false, Bool.and_self]

theorem splitTrivia_of_isSolid {c : Char} (hc : isSolid c = true) (s : List Char) :
    splitTrivia false (c :: s) = ([], c :: s) := by
  obtain ⟨hspace, hpercent⟩ : isSpace c = false ∧ ¬ c = '%' := by simpa [isSolid] using hc
  simp [splitTrivia, hspace, hpercent]

theorem gap_of_isSolid {c : Char} (hc : isSolid c = true) (sp : Spacing) (s : List Char) :
    (gap sp (c :: s) : Match ρ) = .nothing (c :: s) := by
  cases sp with
  | tight => rfl
  | loose => rw [gap, splitTrivia_of_isSolid hc]; rfl

/-! ## Complete blanks and comments -/

/-- Whether a character ends a line, and the comment on it. -/
def isLineEnd (c : Char) : Bool := c == '\r' || c == '\n'

/-- Blanks and comments, each comment with the end of its line. -/
inductive Closed : List Char → Prop
  | nil : Closed []
  | space {c : Char} {u : List Char} (hc : isSpace c = true) (hu : Closed u) : Closed (c :: u)
  | comment {t u : List Char} {e : Char} (ht : ∀ c ∈ t, isLineEnd c = false)
      (he : isLineEnd e = true) (hu : Closed u) : Closed ('%' :: (t ++ e :: u))

theorem isSpace_of_isLineEnd {c : Char} (h : isLineEnd c = true) : isSpace c = true := by
  simp only [isLineEnd, Bool.or_eq_true, beq_iff_eq] at h
  rcases h with rfl | rfl <;> rfl

theorem splitTrivia_comment {t s : List Char} {e : Char} (ht : ∀ c ∈ t, isLineEnd c = false)
    (he : isLineEnd e = true) :
    (splitTrivia true (t ++ e :: s)).2 = (splitTrivia false s).2 := by
  induction t with
  | nil =>
      have he : (e == '\r' || e == '\n') = true := he
      simp [splitTrivia, he]
  | cons c t ih =>
      have hc : (c == '\r' || c == '\n') = false := ht c List.mem_cons_self
      have htail := ih fun c hc => ht c (List.mem_cons_of_mem _ hc)
      simp [splitTrivia, hc, htail]

namespace Closed

theorem append {u v : List Char} (hu : Closed u) (hv : Closed v) : Closed (u ++ v) := by
  induction hu with
  | nil => exact hv
  | space hc hu ih => exact .space hc ih
  | comment ht he hu ih =>
      have h := comment ht he ih
      simpa using h

theorem splitTrivia_append {u : List Char} (hu : Closed u) (s : List Char) :
    (splitTrivia false (u ++ s)).2 = (splitTrivia false s).2 := by
  induction hu with
  | nil => rfl
  | space hc hu ih => simp [splitTrivia, hc, ih]
  | @comment t u e ht he hu ih =>
      have hpercent : splitTrivia false ('%' :: (t ++ e :: (u ++ s)))
          = ('%' :: (splitTrivia true (t ++ e :: (u ++ s))).1,
              (splitTrivia true (t ++ e :: (u ++ s))).2) := rfl
      rw [List.cons_append, List.append_assoc, List.cons_append, hpercent]
      exact (splitTrivia_comment ht he).trans ih

/-- A gap skips blanks and complete comments. -/
theorem rest_gap_append {u : List Char} (hu : Closed u) (s : List Char) :
    (gap .loose (u ++ s) : Match ρ).rest = (gap .loose s : Match ρ).rest :=
  hu.splitTrivia_append s

/-- Blanks and complete comments end in a blank or with a line. -/
theorem eq_nil_or_append {u : List Char} (hu : Closed u) :
    u = [] ∨ ∃ v c, u = v ++ [c] ∧ isSpace c = true := by
  induction hu with
  | nil => exact .inl rfl
  | @space c u hc hu ih =>
      rcases ih with rfl | ⟨v, d, rfl, hd⟩
      · exact .inr ⟨[], c, rfl, hc⟩
      · exact .inr ⟨c :: v, d, rfl, hd⟩
  | @comment t u e ht he hu ih =>
      rcases ih with rfl | ⟨v, d, rfl, hd⟩
      · exact .inr ⟨'%' :: t, e, rfl, isSpace_of_isLineEnd he⟩
      · exact .inr ⟨'%' :: (t ++ e :: v), d, by simp, hd⟩

theorem comment_cons {c : Char} {u : List Char} (hc : isLineEnd c = false)
    (hu : Closed ('%' :: u)) : Closed ('%' :: c :: u) := by
  cases hu with
  | space hspace _ => cases hspace
  | comment ht he hu =>
      refine .comment (t := c :: _) ?_ he hu
      intro d hd
      rcases List.mem_cons.mp hd with rfl | hd
      · exact hc
      · exact ht d hd

end Closed

/-- What is skipped in front of a solid character is complete; inside of a comment it is so with
the percent sign that has begun it. -/
theorem closed_of_splitTrivia (s : List Char) :
    ((splitTrivia false s).2 ≠ [] → Closed (splitTrivia false s).1) ∧
      ((splitTrivia true s).2 ≠ [] → Closed ('%' :: (splitTrivia true s).1)) := by
  induction s with
  | nil => exact ⟨fun _ => .nil, fun h => absurd rfl h⟩
  | cons c s ih =>
      obtain ⟨ihgap, ihcomment⟩ := ih
      constructor
      · intro h
        cases hspace : isSpace c with
        | true =>
            simp only [splitTrivia, hspace, if_true] at h ⊢
            exact .space hspace (ihgap h)
        | false =>
            cases hpercent : c == '%' with
            | true =>
                obtain rfl := beq_iff_eq.mp hpercent
                exact ihcomment h
            | false =>
                simp only [splitTrivia, hspace, hpercent]
                exact .nil
      · intro h
        cases hline : isLineEnd c with
        | true =>
            have hline' : (c == '\r' || c == '\n') = true := hline
            simp only [splitTrivia, hline', if_true] at h ⊢
            exact .comment (t := []) (by simp) hline (ihgap h)
        | false =>
            have hline' : (c == '\r' || c == '\n') = false := hline
            simp only [splitTrivia, hline', if_true] at h ⊢
            exact (ihcomment h).comment_cons hline

/-- A gap in front of anything is blanks and complete comments. -/
theorem closed_of_gap {s : List Char} (h : (gap .loose s : Match ρ).rest ≠ []) :
    Closed (gap .loose s : Match ρ).taken :=
  (closed_of_splitTrivia s).1 h

end PictureTree
