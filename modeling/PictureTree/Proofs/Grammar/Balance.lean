/-
# `Proofs.Grammar.Balance` — expressions that match their braces

How an expression changes the depth of braces can be computed from it, if some
of its rules are known to be calm: to take balanced texts only.  What is computed
is right of every derivation, in texts of a kind that is closed under parts and
in which blanks and comments are balanced too.

    the computed depth           `Expr.braces`
    a kind of quiet texts        `Quiet`
    the computed depth is right  `Quiet.braceDepth_of_derives`
-/
import PictureTree.Proofs.Grammar.Derivation
import PictureTree.Proofs.Text.Braces

namespace PictureTree

variable {ρ : Type}

/-- The depth of braces behind an expression, where it is the same for all texts of it. -/
def Expr.braces (calm : ρ → Bool) : Expr ρ → Nat → Option Nat
  | .lit t, d => braceDepth t d
  | .one p, d => if p.test '{' || p.test '}' then none else some d
  | .rule r, d => if calm r then some d else none
  | .seq a b, d => (a.braces calm d).bind (b.braces calm)
  | .alt a b, d =>
    if a.braces calm d = b.braces calm d then a.braces calm d else none
  | .opt e, d | .star e, d => if e.braces calm d = some d then some d else none
  | .notAhead _, d | .atEnd, d => some d

/-- A kind of texts, closed under parts, in which blanks, comments and calm rules are balanced. -/
structure Quiet (g : Grammar ρ) (calm : ρ → Bool) (holds : Spacing → List Char → Prop) : Prop where
  part : ∀ {sp a b c}, holds sp (a ++ (b ++ c)) → holds sp a ∧ holds sp b ∧ holds sp c
  between : ∀ {u}, holds .loose u → Trivia u → Balanced u
  rule : ∀ {sp r t ns}, calm r = true → holds sp t →
    g.Derives (g.kind r).spacing (g.body r) t ns →
    (holds (g.kind r).spacing t → (g.body r).braces calm 0 = some 0 → Balanced t) → Balanced t

namespace Quiet

variable {g : Grammar ρ} {calm : ρ → Bool} {holds : Spacing → List Char → Prop}

theorem balanced_of_between (h : Quiet g calm holds) {sp : Spacing} {u : List Char}
    (hu : Between sp u) (hholds : holds sp u) : Balanced u := by
  cases sp with
  | tight =>
      obtain rfl : u = [] := hu
      exact .nil
  | loose => exact h.between hholds hu

/-- Two parts with blanks and comments between them change the depth one after the other. -/
theorem braceDepth_parts (h : Quiet g calm holds) {sp : Spacing} {t u v : List Char}
    (hu : Between sp u) (hholds : holds sp (t ++ (u ++ v))) {d k d' : Nat}
    (ht : holds sp t → braceDepth t d = some k) (hv : holds sp v → braceDepth v k = some d') :
    braceDepth (t ++ (u ++ v)) d = some d' := by
  obtain ⟨hholdst, hholdsu, hholdsv⟩ := h.part hholds
  rw [braceDepth_append, ht hholdst, Option.bind_some, braceDepth_append,
    (h.balanced_of_between hu hholdsu).braceDepth, Option.bind_some]
  exact hv hholdsv

/-- What is derived changes the depth of braces as computed. -/
theorem braceDepth_of_derives (h : Quiet g calm holds) {sp : Spacing} {e : Expr ρ}
    {t : List Char} {ns : List (Node ρ)} (ht : g.Derives sp e t ns) (hholds : holds sp t)
    {d d' : Nat} (he : e.braces calm d = some d') : braceDepth t d = some d' := by
  induction ht generalizing d d' with
  | lit t => exact he
  | @one sp p c hc =>
      rw [Expr.braces] at he
      split at he
      · cases he
      · next hbraces =>
          obtain rfl := Option.some.inj he
          have hopening : c ≠ '{' := by
            rintro rfl
            exact hbraces (Bool.or_eq_true_iff.mpr (.inl hc))
          have hclosing : c ≠ '}' := by
            rintro rfl
            exact hbraces (Bool.or_eq_true_iff.mpr (.inr hc))
          exact braceDepth_cons_of_ne hopening hclosing [] d
  | @rule sp r t ns hr ih =>
      rw [Expr.braces] at he
      split at he
      · next hcalm =>
          obtain rfl := Option.some.inj he
          have hbalanced : Balanced t := by
            refine h.rule hcalm hholds hr ?_
            intro hholds hbody
            exact (balanced_iff t).mpr (ih hholds hbody)
          exact hbalanced.braceDepth d
      · cases he
  | @seq sp a b t u v ns ms ha hu hb iha ihb =>
      obtain ⟨k, hk, hd'⟩ := Option.bind_eq_some_iff.mp he
      exact h.braceDepth_parts hu hholds (fun ht => iha ht hk) fun hv => ihb hv hd'
  | left ha ih =>
      rw [Expr.braces] at he
      split at he
      · exact ih hholds he
      · cases he
  | right hb ih =>
      rw [Expr.braces] at he
      split at he
      · next hsame => exact ih hholds (hsame.symm.trans he)
      · cases he
  | absent | done =>
      rw [Expr.braces] at he
      split at he
      · exact he
      · cases he
  | present ht ih =>
      rw [Expr.braces] at he
      split at he
      · next hsame => exact ih hholds (hsame.trans he)
      · cases he
  | @more sp e t u v ns ms ht hu hs iht ihs =>
      have hstar := he
      rw [Expr.braces] at he
      split at he
      · next hsame =>
          obtain rfl := Option.some.inj he
          exact h.braceDepth_parts hu hholds (fun ht => iht ht hsame) fun hv => ihs hv hstar
      · cases he
  | notAhead | atEnd => exact he

theorem balanced_of_derives (h : Quiet g calm holds) {sp : Spacing} {e : Expr ρ}
    {t : List Char} {ns : List (Node ρ)} (ht : g.Derives sp e t ns) (hholds : holds sp t)
    (he : e.braces calm 0 = some 0) : Balanced t :=
  (balanced_iff t).mpr (h.braceDepth_of_derives ht hholds he)

end Quiet

end PictureTree
