/-
# `Proofs.Document.Parts` — which parts a node has

A reader of a node looks for parts by their rules.  Which rules can have made a
part, and how many parts a rule has made, follows from the expression of the
node's rule alone: `Expr.calls` lists the rules that an expression enters, and
`Expr.times` counts how often it goes through a rule, where that is the same for
all of its texts.  Both are computed, so a fact about the parts of a node is
found by evaluation of one expression:

    n.rule.expr.times r = some (k + 1)  →  n has a first part of the rule r
-/
import PictureTree.Document.Reader
import PictureTree.Proofs.Grammar.Derivation

namespace PictureTree

namespace Expr

/-- The rules whose nodes an expression may make. -/
def calls : Expr Rule → List Rule
  | .rule r => [r]
  | .seq a b | .alt a b => a.calls ++ b.calls
  | .opt e | .star e => e.calls
  | .lit _ | .one _ | .notAhead _ | .atEnd => []

/-- How many nodes of a rule an expression makes, if that is one number. -/
def times (r : Rule) : Expr Rule → Option Nat
  | .rule r' => some (if r' = r then 1 else 0)
  | .seq a b => (a.times r).bind fun i => (b.times r).map (i + ·)
  | .alt a b => if a.times r = b.times r then a.times r else none
  | .opt e | .star e => if e.times r = some 0 then some 0 else none
  | .lit _ | .one _ | .notAhead _ | .atEnd => some 0

end Expr

namespace Grammar.Derives

variable {sp : Spacing} {e : Expr Rule} {t : List Char} {ns : List (Node Rule)}

theorem rule_mem_calls (h : grammar.Derives sp e t ns) : ∀ n ∈ ns, n.rule ∈ e.calls := by
  induction h with
  | lit | one | absent | done | notAhead | atEnd => exact fun n hn => by cases hn
  | rule h ih =>
      intro n hn
      obtain rfl := List.mem_singleton.mp hn
      exact List.mem_singleton.mpr rfl
  | seq ha hu hb iha ihb =>
      intro n hn
      rcases List.mem_append.mp hn with hn | hn
      · exact List.mem_append_left _ (iha n hn)
      · exact List.mem_append_right _ (ihb n hn)
  | left h ih => exact fun n hn => List.mem_append_left _ (ih n hn)
  | right h ih => exact fun n hn => List.mem_append_right _ (ih n hn)
  | present h ih => exact ih
  | more he hu hs ihe ihs =>
      intro n hn
      rcases List.mem_append.mp hn with hn | hn
      · exact ihe n hn
      · exact ihs n hn

/-- The count that is computed from an expression is right for all of its texts. -/
theorem length_filter {r : Rule} {k : Nat} (h : grammar.Derives sp e t ns)
    (he : e.times r = some k) : (ns.filter fun n => n.rule = r).length = k := by
  induction h generalizing k with
  | lit | one | notAhead | atEnd => exact Option.some.inj he
  | @rule sp r' t ns h ih =>
      obtain rfl := Option.some.inj he
      by_cases hr : r' = r <;> simp [Node.rule, hr]
  | seq ha hu hb iha ihb =>
      obtain ⟨i, hi, hij⟩ := Option.bind_eq_some_iff.mp he
      obtain ⟨j, hj, rfl⟩ := Option.map_eq_some_iff.mp hij
      rw [List.filter_append, List.length_append, iha hi, ihb hj]
  | left h ih =>
      rw [Expr.times] at he
      split at he
      · exact ih he
      · cases he
  | right h ih =>
      rw [Expr.times] at he
      split at he
      · next hsame => exact ih (hsame ▸ he)
      · cases he
  | absent | done =>
      rw [Expr.times] at he
      split at he
      · exact Option.some.inj he
      · cases he
  | present h ih =>
      rw [Expr.times] at he
      split at he
      · next hzero => exact ih (hzero.trans he)
      · cases he
  | more h hu hs ihe ihs =>
      have hstar := he
      rw [Expr.times] at he
      split at he
      · next hzero =>
          obtain rfl := Option.some.inj he
          rw [List.filter_append, List.length_append, ihe hzero, ihs hstar]
      · cases he

end Grammar.Derives

/-! ## Parts of a node -/

namespace Grammar.Makes

variable {n p : Node Rule} {r : Rule}

theorem of_mem (h : grammar.Makes n) (hp : p ∈ n.parts) : grammar.Makes p := by
  obtain ⟨r, t, parts⟩ := n
  exact h.of_mem_parts p hp

theorem derives_text (h : grammar.Makes n) :
    ∃ ns, grammar.Derives (grammar.kind n.rule).spacing n.rule.expr n.text ns := by
  obtain ⟨r, t, parts⟩ := n
  obtain ⟨ns, hns, -⟩ := h
  exact ⟨ns, hns⟩

theorem derives_parts (h : grammar.Makes n) (hkind : grammar.kind n.rule ≠ .token) :
    grammar.Derives (grammar.kind n.rule).spacing n.rule.expr n.text n.parts := by
  obtain ⟨r, t, parts⟩ := n
  obtain ⟨ns, hns, rfl⟩ := h
  have hshown : (grammar.kind r).shown ns = ns := by
    simp only [Node.rule] at hkind
    cases hk : grammar.kind r with
    | token => exact absurd hk hkind
    | phrase | compound => rfl
  simp only [Node.parts, hshown]
  exact hns

theorem rule_mem_calls (h : grammar.Makes n) : ∀ p ∈ n.parts, p.rule ∈ n.rule.expr.calls := by
  obtain ⟨r, t, parts⟩ := n
  obtain ⟨ns, hns, rfl⟩ := h
  intro p hp
  exact hns.rule_mem_calls p (mem_of_mem_shown hp)

theorem length_all (h : grammar.Makes n) (hkind : grammar.kind n.rule ≠ .token) {k : Nat}
    (hk : n.rule.expr.times r = some k) : (n.all r).length = k :=
  (h.derives_parts hkind).length_filter hk

theorem of_mem_all (h : grammar.Makes n) (hp : p ∈ n.all r) : p.rule = r ∧ grammar.Makes p := by
  obtain ⟨hp, hr⟩ := List.mem_filter.mp hp
  exact ⟨of_decide_eq_true hr, h.of_mem hp⟩

theorem of_first? (h : grammar.Makes n) (hp : n.first? r = some p) :
    p.rule = r ∧ grammar.Makes p := by
  have hr := List.find?_some hp
  exact ⟨of_decide_eq_true hr, h.of_mem (List.mem_of_find?_eq_some hp)⟩

/-- A node has a first part of each rule that its expression goes through. -/
theorem exists_first? (h : grammar.Makes n) (hkind : grammar.kind n.rule ≠ .token) {k : Nat}
    (hk : n.rule.expr.times r = some (k + 1)) :
    ∃ p, n.first? r = some p ∧ p.rule = r ∧ grammar.Makes p := by
  have hlength : (n.all r).length = k + 1 := h.length_all hkind hk
  have hhead : (n.all r).head? = n.first? r := List.head?_filter
  cases hall : n.all r with
  | nil => simp [hall] at hlength
  | cons p ps =>
      rw [hall] at hhead
      exact ⟨p, hhead.symm, h.of_first? hhead.symm⟩

theorem exists_text? (h : grammar.Makes n) (hkind : grammar.kind n.rule ≠ .token) {k : Nat}
    (hk : n.rule.expr.times r = some (k + 1)) :
    ∃ p, n.text? r = some p.text ∧ p.rule = r ∧ grammar.Makes p := by
  obtain ⟨p, hp, hr⟩ := h.exists_first? hkind hk
  exact ⟨p, by rw [Node.text?, hp]; rfl, hr⟩

theorem exists_trimmed? (h : grammar.Makes n) (hkind : grammar.kind n.rule ≠ .token) {k : Nat}
    (hk : n.rule.expr.times r = some (k + 1)) : ∃ t, n.trimmed? r = some t := by
  obtain ⟨p, hp, -⟩ := h.exists_text? hkind hk
  exact ⟨_, by rw [Node.trimmed?, hp]; rfl⟩

end Grammar.Makes

end PictureTree
