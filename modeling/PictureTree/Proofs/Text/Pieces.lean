/-
# `Proofs.Text.Pieces` — what trimming and cutting leave of a text

Trimming takes characters away and adds none, so a text without blanks stays as
it is.  Cutting goes through the characters that it cuts at: no piece has one of
them, and a text without them is a single piece.
-/
import PictureTree.Text.Blank

namespace PictureTree.Text

variable {p : Char → Bool} {s : List Char}

/-! ## Trimming -/

theorem mem_of_mem_trimStart {c : Char} (h : c ∈ trimStart p s) : c ∈ s :=
  (List.dropWhile_sublist p).subset h

theorem mem_of_mem_trim {c : Char} (h : c ∈ trim s) : c ∈ s := by
  refine mem_of_mem_trimStart (p := isBlank) (List.mem_reverse.mp ?_)
  exact mem_of_mem_trimStart (List.mem_reverse.mp h)

theorem trimStart_eq_self (h : ∀ c ∈ s, p c = false) : trimStart p s = s := by
  cases s with
  | nil => rfl
  | cons c s => exact List.dropWhile_cons_of_neg (by simp [h c List.mem_cons_self])

theorem trim_eq_self (h : ∀ c ∈ s, isBlank c = false) : trim s = s := by
  have hreverse : trimStart isBlank s.reverse = s.reverse :=
    trimStart_eq_self fun c hc => h c (List.mem_reverse.mp hc)
  rw [trim, trimBy, trimStart_eq_self h, trimEnd]
  exact (congrArg List.reverse hreverse).trans s.reverse_reverse

/-! ## Cutting -/

theorem pieces_eq_singleton (h : ∀ c ∈ s, p c = false) : pieces p s = [s] := by
  induction s with
  | nil => rfl
  | cons c s ih =>
      have hs : pieces p s = [s] := ih fun d hd => h d (List.mem_cons_of_mem _ hd)
      simp [pieces, h c List.mem_cons_self, hs]

/-- No piece has a character that the text is cut at. -/
theorem eq_false_of_mem_pieces {piece : List Char} (h : piece ∈ pieces p s) :
    ∀ c ∈ piece, p c = false := by
  induction s generalizing piece with
  | nil =>
      obtain rfl := List.mem_singleton.mp h
      exact fun c hc => by cases hc
  | cons d s ih =>
      rw [pieces] at h
      split at h
      next =>
        rcases List.mem_cons.mp h with rfl | h
        · exact fun c hc => by cases hc
        · exact ih h
      next hd =>
        have hd : p d = false := Bool.eq_false_iff.mpr hd
        obtain ⟨first, more, hs⟩ := List.exists_cons_of_ne_nil (pieces_ne_nil p s)
        have hfirst : first ∈ pieces p s := hs ▸ List.mem_cons_self
        rw [hs] at h
        rcases List.mem_cons.mp h with rfl | h
        · intro c hc
          rcases List.mem_cons.mp hc with rfl | hc
          · exact hd
          · exact ih hfirst c hc
        · exact ih (hs ▸ List.mem_cons_of_mem _ h)

end PictureTree.Text
