/-
# `Proofs.Grammar.Openings` — what a text must start with

Most rules start with a literal, often a name that no letter may follow.  The
literals can be computed from the expression of a rule; at a text that starts
with none of them the rule matches nothing.

    the openings of an expression   `Expr.openings`, `Grammar.openings`
    a match starts with one         `Expr.exists_opening_of_run`
    no match at another name        `Expr.run_eq_none_of_misses`
    no match at another character   `Grammar.start?_eq_none_of_head`
-/
import PictureTree.Proofs.Grammar.Fixpoint
import PictureTree.Proofs.Grammar.Gaps
import PictureTree.Proofs.Grammar.TrailingRepetition

namespace PictureTree

variable {ρ : Type}

/-! ## Openings -/

/-- A literal at the start of a text; behind a name no letter follows. -/
structure Opening where
  text : List Char
  named : Bool
deriving DecidableEq

namespace Opening

/-- Whether a text starts with an opening. -/
def Fits (o : Opening) (s : List Char) : Prop :=
  ∃ u, s = o.text ++ u ∧ (o.named = true → ∀ c ∈ u.head?, c.isAlpha = false)

/-- Whether no text that starts with a name, and no letter behind it, starts with an opening. -/
def misses (w : List Char) (o : Opening) : Bool :=
  !o.text.isEmpty && o.text.tail.all Char.isAlpha &&
    if o.named then o.text != w else decide (¬ o.text <+: w)

theorem not_fits_of_misses {o : Opening} {w rest : List Char} (ho : o.misses w = true)
    (hne : w ≠ []) (hw : ∀ c ∈ w.tail, c.isAlpha = true)
    (hrest : ∀ c ∈ rest.head?, c.isAlpha = false) : ¬ o.Fits (w ++ rest) := by
  rintro ⟨u, hu, hnamed⟩
  simp only [misses, Bool.and_eq_true, List.all_eq_true] at ho
  obtain ⟨⟨hempty, hletters⟩, hother⟩ := ho
  have htext : o.text ≠ [] := by
    intro h
    rw [h] at hempty
    cases hempty
  have hnot : o.text ≠ w := by
    intro h
    rw [h] at hother
    split at hother
    · simp at hother
    · exact of_decide_eq_true hother List.prefix_rfl
  obtain ⟨a, t, ht⟩ := List.exists_cons_of_ne_nil htext
  obtain ⟨b, v, rfl⟩ := List.exists_cons_of_ne_nil hne
  rw [ht] at hu hletters hnot
  obtain ⟨rfl, hu⟩ := List.cons.inj hu
  -- behind the shorter one of the two names stands a letter of the longer one
  rcases List.append_eq_append_iff.mp hu with ⟨z, hz, hrest'⟩ | ⟨z, hz, hu'⟩
  · cases z with
    | nil => exact hnot (by rw [hz, List.append_nil])
    | cons c z =>
        have hletter : c.isAlpha = true := hletters c (by simp [hz])
        rw [hrest c (by simp [hrest'])] at hletter
        cases hletter
  · cases z with
    | nil => exact hnot (by rw [hz, List.append_nil])
    | cons c z =>
        have hletter : c.isAlpha = true := hw c (by simp [hz])
        cases hname : o.named with
        | true =>
            rw [hnamed hname c (by simp [hu'])] at hletter
            cases hletter
        | false =>
            rw [if_neg (by rw [hname]; decide), ht, hz] at hother
            exact of_decide_eq_true hother ⟨c :: z, rfl⟩

theorem not_fits_of_head {o : Opening} {c : Char} {s : List Char} (ho : o.text.head? = some c)
    (hs : s.head? ≠ some c) : ¬ o.Fits s := by
  rintro ⟨u, rfl, -⟩
  obtain ⟨t, ht⟩ := List.head?_eq_some_iff.mp ho
  exact hs (by rw [ht]; rfl)

end Opening

/-! ## Openings of expressions -/

namespace Expr

/-- The texts of a choice between literals. -/
def texts? : Expr ρ → Option (List (List Char))
  | .lit t => some [t]
  | .alt a b => do return (← texts? a) ++ (← texts? b)
  | _ => none

/-- The literals that no letter may follow, of an expression and what is behind it. -/
def names? (a b : Expr ρ) : Option (List (List Char)) :=
  match b with
  | .notAhead (.one .letter) => a.texts?
  | _ => none

/-- The openings of an expression, if there are only these. -/
def openings (inner : ρ → Option (List Opening)) : Expr ρ → Option (List Opening)
  | .lit t => some [⟨t, false⟩]
  | .rule r => inner r
  | .seq a b =>
    match names? a b with
    | some ts => some (ts.map fun t => ⟨t, true⟩)
    | none => openings inner a
  | .alt a b => do return (← openings inner a) ++ (← openings inner b)
  | _ => none

variable {call : ρ → List Char → Option (Match ρ)} {sp : Spacing}

theorem exists_text_of_run {e : Expr ρ} {ts : List (List Char)} (he : e.texts? = some ts)
    {s : List Char} {m : Match ρ} (h : e.run call sp s = some m) : ∃ t ∈ ts, s = t ++ m.rest := by
  induction e generalizing ts with
  | lit t =>
      obtain rfl : [t] = ts := Option.some.inj he
      obtain ⟨rest, hrest, rfl⟩ := Option.map_eq_some_iff.mp h
      exact ⟨t, List.mem_singleton_self t, Text.after?_eq_some.mp hrest⟩
  | alt a b iha ihb =>
      simp only [texts?, bind, Option.bind_eq_some_iff, pure, Option.some.injEq] at he
      obtain ⟨ts, ha, us, hb, rfl⟩ := he
      cases hm : a.run call sp s with
      | none =>
          rw [run, hm] at h
          obtain ⟨t, ht, hs⟩ := ihb hb h
          exact ⟨t, List.mem_append_right _ ht, hs⟩
      | some m' =>
          rw [run, hm] at h
          obtain rfl : m' = m := Option.some.inj h
          obtain ⟨t, ht, hs⟩ := iha ha hm
          exact ⟨t, List.mem_append_left _ ht, hs⟩
  | _ => cases he

/-- In front of a letter nothing is skipped, so it is seen. -/
theorem not_isAlpha_of_run_notAhead {s : List Char} {m : Match ρ}
    (h : (Expr.notAhead (.one .letter)).run call sp (gap sp s : Match ρ).rest = some m) :
    ∀ c ∈ s.head?, c.isAlpha = false := by
  intro c hc
  obtain ⟨s, rfl⟩ : ∃ t, s = c :: t := List.head?_eq_some_iff.mp hc
  cases hletter : c.isAlpha with
  | false => rfl
  | true =>
      rw [gap_of_isSolid (isSolid_of_isAlpha hletter)] at h
      simp [run, Match.nothing, CharClass.test, hletter] at h

/-- What is matched starts with an opening, if this holds of the rules. -/
theorem exists_opening_of_run {inner : ρ → Option (List Opening)}
    (hcall : ∀ {r os s m}, inner r = some os → call r s = some m → ∃ o ∈ os, o.Fits s)
    {e : Expr ρ} {os : List Opening} (he : e.openings inner = some os) {s : List Char} {m : Match ρ}
    (h : e.run call sp s = some m) : ∃ o ∈ os, o.Fits s := by
  induction e generalizing os m with
  | lit t =>
      obtain rfl : [⟨t, false⟩] = os := Option.some.inj he
      obtain ⟨rest, hrest, -⟩ := Option.map_eq_some_iff.mp h
      exact ⟨_, List.mem_singleton_self _, rest, Text.after?_eq_some.mp hrest, nofun⟩
  | rule r => exact hcall he h
  | seq a b iha ihb =>
      simp only [run, bind, Option.bind_eq_some_iff, pure, Option.some.injEq] at h
      obtain ⟨k, hk, n, hn, -⟩ := h
      rw [openings] at he
      split at he
      · next ts hts =>
          obtain rfl := Option.some.inj he
          obtain ⟨hb, hts⟩ : b = .notAhead (.one .letter) ∧ a.texts? = some ts := by
            unfold names? at hts
            split at hts
            · exact ⟨rfl, hts⟩
            · cases hts
          subst hb
          obtain ⟨t, ht, hs⟩ := exists_text_of_run hts hk
          refine ⟨⟨t, true⟩, List.mem_map_of_mem ht, k.rest, hs, ?_⟩
          intro _
          exact not_isAlpha_of_run_notAhead hn
      · exact iha he hk
  | alt a b iha ihb =>
      simp only [openings, bind, Option.bind_eq_some_iff, pure, Option.some.injEq] at he
      obtain ⟨xs, ha, ys, hb, rfl⟩ := he
      cases hm : a.run call sp s with
      | none =>
          rw [run, hm] at h
          obtain ⟨o, ho, hfits⟩ := ihb hb h
          exact ⟨o, List.mem_append_right _ ho, hfits⟩
      | some k =>
          obtain ⟨o, ho, hfits⟩ := iha ha hm
          exact ⟨o, List.mem_append_left _ ho, hfits⟩
  | _ => cases he

/-- An expression matches nothing at a text that starts with none of its openings. -/
theorem run_eq_none_of_openings {inner : ρ → Option (List Opening)}
    (hcall : ∀ {r os s m}, inner r = some os → call r s = some m → ∃ o ∈ os, o.Fits s)
    {e : Expr ρ} {os : List Opening} (he : e.openings inner = some os) {s : List Char}
    (hs : ∀ o ∈ os, ¬ o.Fits s) : e.run call sp s = none := by
  refine Option.eq_none_iff_forall_ne_some.mpr ?_
  intro m hm
  obtain ⟨o, ho, hfits⟩ := exists_opening_of_run hcall he hm
  exact hs o ho hfits

/-- An expression with other names matches nothing at a name that no letter follows. -/
theorem run_eq_none_of_misses {inner : ρ → Option (List Opening)}
    (hcall : ∀ {r os s m}, inner r = some os → call r s = some m → ∃ o ∈ os, o.Fits s)
    {e : Expr ρ} {w rest : List Char}
    (he : (e.openings inner).any (fun os => os.all (Opening.misses w)) = true)
    (hne : w ≠ []) (hw : ∀ c ∈ w.tail, c.isAlpha = true)
    (hrest : ∀ c ∈ rest.head?, c.isAlpha = false) : e.run call sp (w ++ rest) = none := by
  obtain ⟨os, hos, hall⟩ := (Option.any_eq_true _ _).mp he
  refine run_eq_none_of_openings hcall hos ?_
  intro o ho
  exact Opening.not_fits_of_misses (List.all_eq_true.mp hall o ho) hne hw hrest

end Expr

/-! ## Openings of rules -/

namespace Grammar

/-- The openings of a rule, with rules entered no deeper than `depth`. -/
def openings (g : Grammar ρ) : (depth : Nat) → ρ → Option (List Opening)
  | 0, _ => none
  | depth + 1, r => (g.body r).openings (g.openings depth)

variable {g : Grammar ρ} {n : Nat}

theorem exists_opening_of_apply {depth : Nat} {r : ρ} {os : List Opening}
    (hr : g.openings n r = some os) {s : List Char} {m : Match ρ}
    (h : g.apply depth r s = some m) : ∃ o ∈ os, o.Fits s := by
  induction n generalizing depth r os s m with
  | zero => cases hr
  | succ n ih =>
      cases depth with
      | zero => cases h
      | succ depth =>
          obtain ⟨k, hk, -⟩ := Option.map_eq_some_iff.mp h
          exact Expr.exists_opening_of_run (fun hr h => ih hr h) hr hk

theorem run_start?_eq_none_of_misses {sp : Spacing} {e : Expr ρ} {w rest : List Char}
    (he : (e.openings (g.openings n)).any (fun os => os.all (Opening.misses w)) = true)
    (hne : w ≠ []) (hw : ∀ c ∈ w.tail, c.isAlpha = true)
    (hrest : ∀ c ∈ rest.head?, c.isAlpha = false) : e.run g.start? sp (w ++ rest) = none :=
  Expr.run_eq_none_of_misses (fun hr h => exists_opening_of_apply hr h) he hne hw hrest

theorem apply_eq_none_of_misses {depth : Nat} {r : ρ} {w rest : List Char}
    (hr : (g.openings n r).any (fun os => os.all (Opening.misses w)) = true)
    (hne : w ≠ []) (hw : ∀ c ∈ w.tail, c.isAlpha = true)
    (hrest : ∀ c ∈ rest.head?, c.isAlpha = false) : g.apply depth r (w ++ rest) = none := by
  have hr : ((Expr.rule r).openings (g.openings n)).any (fun os => os.all (Opening.misses w))
      = true := hr
  have hrun : (Expr.rule r).run (g.apply depth) .tight (w ++ rest) = none :=
    Expr.run_eq_none_of_misses (fun hr h => exists_opening_of_apply hr h) hr hne hw hrest
  exact hrun

/-- A rule that starts with one character matches nothing at another. -/
theorem start?_eq_none_of_head {r : ρ} {c : Char}
    (hr : (g.openings n r).any (fun os => os.all fun o => o.text.head? = some c) = true)
    {s : List Char} (hs : s.head? ≠ some c) : g.start? r s = none := by
  obtain ⟨os, hos, hall⟩ := (Option.any_eq_true _ _).mp hr
  have hos : (Expr.rule r).openings (g.openings n) = some os := hos
  have hrun : (Expr.rule r).run g.start? .tight s = none := by
    refine Expr.run_eq_none_of_openings (fun hr h => exists_opening_of_apply hr h) hos ?_
    intro o ho
    exact Opening.not_fits_of_head (of_decide_eq_true (List.all_eq_true.mp hall o ho)) hs
  exact hrun

end Grammar

end PictureTree
