/-
# `Proofs.Grammar.Running` — running an expression forward

To show that an expression matches a text, its parts are run one after the
other: a sequence joins the matches of its parts, a choice takes the first
alternative that matches, and a greedy repetition is the run of its part as
often as it matches.
-/
import PictureTree.Proofs.Grammar.Gaps
import PictureTree.Proofs.Grammar.TrailingRepetition

namespace PictureTree

open Trailer

variable {ρ : Type} {call : ρ → List Char → Option (Match ρ)} {sp : Spacing}

namespace Match

@[simp] theorem nothing_append (s : List Char) (m : Match ρ) : nothing s ++ m = m := rfl

theorem append_assoc (l m n : Match ρ) : l ++ m ++ n = l ++ (m ++ n) := by
  show Match.mk _ _ _ = Match.mk _ _ _
  simp

end Match

namespace Expr

/-- A sequence matches what its parts match, with a gap between them. -/
theorem run_seq_join {a b : Expr ρ} {s : List Char} {m n : Match ρ}
    (ha : a.run call sp s = some m) (hb : b.run call sp (gap sp m.rest : Match ρ).rest = some n) :
    (Expr.seq a b).run call sp s = some (join sp m n) := by
  rw [run_seq_of_some ha, hb]
  rfl

/-- In front of a solid character nothing is skipped. -/
theorem run_seq_of_isSolid {a b : Expr ρ} {s t : List Char} {c : Char} {m : Match ρ}
    (ha : a.run call sp s = some m) (hrest : m.rest = c :: t) (hc : isSolid c = true) :
    (Expr.seq a b).run call sp s = (b.run call sp (c :: t)).map (m ++ ·) := by
  have hjoin : join sp m = (m ++ ·) := by
    funext n
    rw [join, hrest, gap_of_isSolid hc, Match.nothing_append]
  rw [run_seq_of_some ha, hrest, gap_of_isSolid hc, Match.rest_nothing, hjoin]

/-- An optional part that does not come in front of a solid character is passed over. -/
theorem run_seq_of_nothing {a b : Expr ρ} {t : List Char} {c : Char}
    (ha : a.run call sp (c :: t) = some (.nothing (c :: t))) (hc : isSolid c = true) :
    (Expr.seq a b).run call sp (c :: t) = b.run call sp (c :: t) := by
  rw [run_seq_of_isSolid ha rfl hc]
  cases b.run call sp (c :: t) <;> rfl

/-- Expressions go on behind others where these have ended. -/
theorem run_seqs_append {es es' : List (Expr ρ)} (hes : es ≠ []) (hes' : es' ≠ []) {s : List Char}
    {m : Match ρ} (h : (seqs es).run call sp s = some m) : (seqs (es ++ es')).run call sp s
      = ((seqs es').run call sp (gap sp m.rest : Match ρ).rest).map (join sp m) := by
  obtain ⟨e', es', rfl⟩ := List.exists_cons_of_ne_nil hes'
  induction es generalizing s m with
  | nil => exact absurd rfl hes
  | cons e es ih =>
      cases es with
      | nil => exact run_seq_of_some h
      | cons e'' es =>
          have hseq : (Expr.seq e (seqs (e'' :: es))).run call sp s = some m := h
          cases hk : e.run call sp s with
          | none =>
              rw [run_seq_of_none hk] at hseq
              cases hseq
          | some k =>
              rw [run_seq_of_some hk] at hseq
              obtain ⟨n, hn, rfl⟩ := Option.map_eq_some_iff.mp hseq
              have hothers := ih (List.cons_ne_nil _ _) hn
              have hjoin : join sp (join sp k n) = join sp k ∘ join sp n := by
                funext x
                simp only [join, Match.append_assoc, Match.rest_append, Function.comp_apply]
              rw [rest_join, hjoin, ← Option.map_map, ← hothers]
              exact run_seq_of_some hk

theorem run_lit_append (t s : List Char) : (Expr.lit t).run call sp (t ++ s) = some ⟨t, s, []⟩ := by
  rw [run, Text.after?_eq_some.mpr rfl]
  rfl

/-! ## Choice -/

theorem run_alts_cons {e : Expr ρ} {es : List (Expr ρ)} (hes : es ≠ []) (s : List Char) :
    (alts (e :: es)).run call sp s = (e.run call sp s <|> (alts es).run call sp s) := by
  cases es with
  | nil => exact absurd rfl hes
  | cons e' es => rfl

/-- A choice matches if an alternative does. -/
theorem isSome_run_alts {es : List (Expr ρ)} {e : Expr ρ} (he : e ∈ es) {s : List Char}
    (h : (e.run call sp s).isSome = true) : ((alts es).run call sp s).isSome = true := by
  induction es with
  | nil => cases he
  | cons e' es ih =>
      by_cases hnil : es = []
      · subst hnil
        obtain rfl := List.mem_singleton.mp he
        exact h
      · rw [run_alts_cons hnil]
        rcases List.mem_cons.mp he with rfl | he
        · obtain ⟨m, hm⟩ := Option.isSome_iff_exists.mp h
          rw [hm]
          rfl
        · cases hm : e'.run call sp s with
          | some m => rfl
          | none => exact ih he

theorem run_alts_eq_none {es : List (Expr ρ)} {s : List Char}
    (hes : ∀ e ∈ es, e.run call sp s = none) : (alts es).run call sp s = none := by
  induction es with
  | nil => cases s <;> rfl
  | cons e es ih =>
      by_cases hnil : es = []
      · subst hnil
        exact hes e List.mem_cons_self
      · rw [run_alts_cons hnil, hes e List.mem_cons_self]
        exact ih fun e' he' => hes e' (List.mem_cons_of_mem _ he')

/-- A choice matches what one of its alternatives matches. -/
theorem exists_of_run_alts {es : List (Expr ρ)} {s : List Char} {m : Match ρ}
    (h : (alts es).run call sp s = some m) : ∃ e ∈ es, e.run call sp s = some m := by
  induction es with
  | nil => cases s <;> cases h
  | cons e es ih =>
      by_cases hnil : es = []
      · subst hnil
        exact ⟨e, List.mem_cons_self, h⟩
      · rw [run_alts_cons hnil] at h
        cases hm : e.run call sp s with
        | some k =>
            rw [hm] at h
            exact ⟨e, List.mem_cons_self, hm.trans h⟩
        | none =>
            rw [hm] at h
            obtain ⟨e', he', h⟩ := ih h
            exact ⟨e', List.mem_cons_of_mem _ he', h⟩

theorem run_alts_append {es es' : List (Expr ρ)} (hes : es ≠ []) (hes' : es' ≠ [])
    (s : List Char) : (alts (es ++ es')).run call sp s
      = ((alts es).run call sp s <|> (alts es').run call sp s) := by
  induction es with
  | nil => exact absurd rfl hes
  | cons e es ih =>
      by_cases hnil : es = []
      · subst hnil
        exact run_alts_cons hes' s
      · rw [List.cons_append, run_alts_cons (by simp [hnil]), run_alts_cons hnil, ih hnil]
        cases e.run call sp s <;> rfl

/-- A choice between rules is the rule besides which all fail. -/
theorem run_alts_rules {rs : List ρ} {r : ρ} (hr : r ∈ rs) {s : List Char}
    (hfail : ∀ r' ∈ rs, r' ≠ r → call r' s = none) :
    (alts (rs.map .rule)).run call sp s = call r s := by
  induction rs with
  | nil => cases hr
  | cons r' rs ih =>
      by_cases hnil : rs = []
      · subst hnil
        obtain rfl := List.mem_singleton.mp hr
        rfl
      · rw [List.map_cons, run_alts_cons (by simpa using hnil)]
        by_cases hsame : r' = r
        · subst hsame
          cases hm : call r' s with
          | some m => simp [run, hm]
          | none =>
              have hothers : ∀ e ∈ rs.map Expr.rule, e.run call sp s = none := by
                intro e he
                obtain ⟨r'', hr'', rfl⟩ := List.mem_map.mp he
                by_cases hsame : r'' = r'
                · rw [hsame]
                  exact hm
                · exact hfail r'' (List.mem_cons_of_mem _ hr'') hsame
              rw [run, hm, run_alts_eq_none hothers]
              rfl
        · have hr : r ∈ rs := (List.mem_cons.mp hr).resolve_left (Ne.symm hsame)
          rw [run, hfail r' List.mem_cons_self hsame]
          exact ih hr fun r'' hr'' => hfail r'' (List.mem_cons_of_mem _ hr'')

/-! ## Repetition -/

theorem repetitions_tight_of_some {step : List Char → Option (Match ρ)} (hstep : Consumes step)
    {s : List Char} {m : Match ρ} (h : step s = some m) :
    repetitions step .tight s = m ++ repetitions step .tight m.rest := by
  have hgap : step (gap .tight s : Match ρ).rest = some m := h
  rw [repetitions_of_some hstep hgap]
  rfl

theorem run_star_tight {e : Expr ρ} (he : Consumes (e.run call .tight)) (s : List Char) :
    (Expr.star e).run call .tight s = some (repetitions (e.run call .tight) .tight s) := by
  rw [run_star]
  cases hm : e.run call .tight s with
  | none => rw [repetitions_of_none hm]
  | some m => rw [repetitions_tight_of_some he hm]

end Expr

end PictureTree
