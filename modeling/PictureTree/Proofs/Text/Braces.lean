/-
# `Proofs.Text.Braces` — matching braces

How many braces are open is counted along a text; the count is lost at a brace
that closes none.  A text is balanced if it closes no brace that it has not
opened, and all that it has.

    the count              `braceDepth`, none if a brace closes that none opened
    balanced texts         `Balanced`, `balanced_iff`
    a group has one end    `Balanced.eq_of_closing`, `Balanced.exists_group`
-/
import PictureTree.Proofs.Grammar.Matching

namespace PictureTree

/-! ## The depth of braces -/

/-- The number of open braces behind a character. -/
def braceStep (d : Nat) (c : Char) : Option Nat :=
  if c = '{' then some (d + 1)
  else if c = '}' then (if d = 0 then none else some (d - 1))
  else some d

/-- The number of open braces behind a text, if no brace closes that was not opened. -/
def braceDepth (s : List Char) (d : Nat) : Option Nat := s.foldlM braceStep d

@[simp] theorem braceDepth_nil (d : Nat) : braceDepth [] d = some d := rfl

theorem braceDepth_cons (c : Char) (s : List Char) (d : Nat) :
    braceDepth (c :: s) d = (braceStep d c).bind (braceDepth s) :=
  List.foldlM_cons

@[simp] theorem braceDepth_opening (s : List Char) (d : Nat) :
    braceDepth ('{' :: s) d = braceDepth s (d + 1) := rfl

@[simp] theorem braceDepth_closing_zero (s : List Char) : braceDepth ('}' :: s) 0 = none := rfl

@[simp] theorem braceDepth_closing_succ (s : List Char) (d : Nat) :
    braceDepth ('}' :: s) (d + 1) = braceDepth s d := rfl

theorem braceDepth_cons_of_ne {c : Char} (hopening : c ≠ '{') (hclosing : c ≠ '}')
    (s : List Char) (d : Nat) : braceDepth (c :: s) d = braceDepth s d := by
  rw [braceDepth_cons, braceStep, if_neg hopening, if_neg hclosing]
  rfl

theorem braceDepth_append (s t : List Char) (d : Nat) :
    braceDepth (s ++ t) d = (braceDepth s d).bind (braceDepth t) :=
  List.foldlM_append

theorem braceDepth_of_forall_ne {s : List Char} (h : ∀ c ∈ s, c ≠ '{' ∧ c ≠ '}') (d : Nat) :
    braceDepth s d = some d := by
  induction s with
  | nil => rfl
  | cons c s ih =>
      obtain ⟨hopening, hclosing⟩ := h c List.mem_cons_self
      rw [braceDepth_cons_of_ne hopening hclosing]
      exact ih fun c hc => h c (List.mem_cons_of_mem _ hc)

/-- Braces that are open in front of a text stay open behind it. -/
theorem braceDepth_add {s : List Char} {d d' : Nat} (h : braceDepth s d = some d') (k : Nat) :
    braceDepth s (d + k) = some (d' + k) := by
  induction s generalizing d with
  | nil =>
      obtain rfl := Option.some.inj h
      rfl
  | cons c s ih =>
      by_cases hopening : c = '{'
      · subst hopening
        rw [braceDepth_opening, Nat.add_right_comm]
        exact ih h
      · by_cases hclosing : c = '}'
        · subst hclosing
          cases d with
          | zero => cases h
          | succ d =>
              rw [Nat.add_right_comm, braceDepth_closing_succ]
              exact ih h
        · rw [braceDepth_cons_of_ne hopening hclosing] at h ⊢
          exact ih h

/-! ## Balanced texts -/

/-- No start of the text closes more braces than it opens, and all are closed at its end. -/
structure Balanced (s : List Char) : Prop where
  opened : ∀ t, t <+: s → t.count '}' ≤ t.count '{'
  closed : s.count '}' = s.count '{'

theorem forall_start_cons_iff {P : List Char → Prop} (hnil : P []) (c : Char) (s : List Char) :
    (∀ t, t <+: c :: s → P t) ↔ ∀ t, t <+: s → P (c :: t) := by
  constructor
  · intro h t ht
    exact h (c :: t) (List.cons_prefix_cons.mpr ⟨rfl, ht⟩)
  · intro h t ht
    rcases List.prefix_cons_iff.mp ht with rfl | ⟨u, rfl, hu⟩
    · exact hnil
    · exact h u hu

/-- The depth counts: what is open behind a text was open before or is opened in it. -/
theorem braceDepth_eq_some_iff (s : List Char) (d d' : Nat) : braceDepth s d = some d' ↔
    (∀ t, t <+: s → t.count '}' ≤ d + t.count '{') ∧ d' + s.count '}' = d + s.count '{' := by
  induction s generalizing d with
  | nil => simp [eq_comm]
  | cons c s ih =>
      rw [forall_start_cons_iff (P := fun t => t.count '}' ≤ d + t.count '{') (Nat.zero_le _)]
      by_cases hopening : c = '{'
      · subst hopening
        have hcount : ∀ t : List Char, ('{' :: t).count '{' = t.count '{' + 1 ∧
            ('{' :: t).count '}' = t.count '}' := by
          intro t
          exact ⟨List.count_cons_self, List.count_cons_of_ne (by decide)⟩
        rw [braceDepth_opening, ih]
        simp only [hcount]
        refine and_congr (forall₂_congr ?_) (by omega)
        intro t _
        omega
      · by_cases hclosing : c = '}'
        · subst hclosing
          have hcount : ∀ t : List Char, ('}' :: t).count '{' = t.count '{' ∧
              ('}' :: t).count '}' = t.count '}' + 1 := by
            intro t
            exact ⟨List.count_cons_of_ne (by decide), List.count_cons_self⟩
          simp only [hcount]
          cases d with
          | zero =>
              rw [braceDepth_closing_zero]
              constructor
              · intro h
                cases h
              · rintro ⟨hstarts, -⟩
                have := hstarts [] List.nil_prefix
                simp at this
          | succ d =>
              rw [braceDepth_closing_succ, ih]
              refine and_congr (forall₂_congr ?_) (by omega)
              intro t _
              omega
        · have hcount : ∀ t : List Char, (c :: t).count '{' = t.count '{' ∧
              (c :: t).count '}' = t.count '}' := by
            intro t
            exact ⟨List.count_cons_of_ne hopening, List.count_cons_of_ne hclosing⟩
          rw [braceDepth_cons_of_ne hopening hclosing, ih]
          simp only [hcount]

theorem balanced_iff (s : List Char) : Balanced s ↔ braceDepth s 0 = some 0 := by
  rw [braceDepth_eq_some_iff]
  constructor
  · rintro ⟨hopened, hclosed⟩
    exact ⟨fun t ht => by simpa using hopened t ht, by simpa using hclosed⟩
  · rintro ⟨hopened, hclosed⟩
    exact ⟨fun t ht => by simpa using hopened t ht, by simpa using hclosed⟩

namespace Balanced

variable {s t u v : List Char}

theorem braceDepth (h : Balanced s) (d : Nat) : braceDepth s d = some d := by
  have h := braceDepth_add ((balanced_iff s).mp h) d
  rwa [Nat.zero_add] at h

theorem nil : Balanced [] := (balanced_iff []).mpr rfl

theorem append (hs : Balanced s) (ht : Balanced t) : Balanced (s ++ t) := by
  rw [balanced_iff, braceDepth_append, hs.braceDepth, Option.bind_some, ht.braceDepth]

/-- What is behind a balanced start of a balanced text is balanced. -/
theorem of_append (hs : Balanced s) (h : Balanced (s ++ t)) : Balanced t := by
  rw [balanced_iff, braceDepth_append, hs.braceDepth, Option.bind_some] at h
  exact (balanced_iff t).mpr h

/-- No balanced text goes on behind a brace that a balanced start of it leaves unopened. -/
theorem not_append_closing (hs : Balanced s) : ¬ Balanced (s ++ '}' :: t) := by
  intro h
  have h := hs.of_append h
  rw [balanced_iff, braceDepth_closing_zero] at h
  cases h

/-- Of two balanced texts with a closing brace behind them, none goes on behind the other. -/
theorem eq_of_closing (hs : Balanced s) (ht : Balanced t) (h : s ++ '}' :: u = t ++ '}' :: v) :
    s = t ∧ u = v := by
  rcases List.append_eq_append_iff.mp h with ⟨z, hz, hrest⟩ | ⟨z, hz, hrest⟩
  · cases z with
    | nil => simp_all
    | cons c z =>
        obtain ⟨rfl, -⟩ := List.cons.inj hrest
        rw [hz] at ht
        exact absurd ht hs.not_append_closing
  · cases z with
    | nil => simp_all
    | cons c z =>
        obtain ⟨rfl, -⟩ := List.cons.inj hrest
        rw [hz] at hs
        exact absurd hs ht.not_append_closing

end Balanced

/-- Where more braces close than are open, a first one does. -/
theorem exists_closing_of_count {s : List Char} {d : Nat}
    (h : d + s.count '{' < s.count '}') :
    ∃ t u, s = t ++ '}' :: u ∧ braceDepth t d = some 0 := by
  induction s generalizing d with
  | nil => simp at h
  | cons c s ih =>
      by_cases hopening : c = '{'
      · subst hopening
        rw [List.count_cons_self, List.count_cons_of_ne (by decide)] at h
        obtain ⟨t, u, rfl, ht⟩ := ih (d := d + 1) (by omega)
        exact ⟨'{' :: t, u, rfl, ht⟩
      · by_cases hclosing : c = '}'
        · subst hclosing
          rw [List.count_cons_self, List.count_cons_of_ne (by decide)] at h
          cases d with
          | zero => exact ⟨[], s, rfl, rfl⟩
          | succ d =>
              obtain ⟨t, u, rfl, ht⟩ := ih (d := d) (by omega)
              exact ⟨'}' :: t, u, rfl, ht⟩
        · rw [List.count_cons_of_ne hopening, List.count_cons_of_ne hclosing] at h
          obtain ⟨t, u, rfl, ht⟩ := ih h
          exact ⟨c :: t, u, rfl, (braceDepth_cons_of_ne hopening hclosing t d).trans ht⟩

/-- The text up to the brace that closes one more than those that are open. -/
theorem exists_closing_of_braceDepth {s : List Char} {d : Nat}
    (h : braceDepth s (d + 1) = some 0) :
    ∃ t u, s = t ++ '}' :: u ∧ braceDepth t d = some 0 := by
  have hcount := ((braceDepth_eq_some_iff s (d + 1) 0).mp h).2
  exact exists_closing_of_count (by omega)

/-- A group that a balanced text starts with has an end. -/
theorem Balanced.exists_group {s : List Char} (h : Balanced ('{' :: s)) :
    ∃ t u, s = t ++ '}' :: u ∧ Balanced t ∧ Balanced u := by
  rw [balanced_iff, braceDepth_opening] at h
  obtain ⟨t, u, rfl, ht⟩ := exists_closing_of_braceDepth h
  have ht : Balanced t := (balanced_iff t).mpr ht
  refine ⟨t, u, rfl, ht, (balanced_iff u).mpr ?_⟩
  rw [braceDepth_append, ht.braceDepth] at h
  exact h

end PictureTree
