/-
# `Proofs.Document.Progress` — the notation makes progress

The grammar of the notation has scopes inside scopes, groups inside groups, and many
parts that may be missing: no parameters, no coordinate, an empty value.  Still no
repetition of it stands still, the one that skips blanks and comments included, and no
rule is entered again where it was entered.  Both are decided from the expressions, all
rules together, and they are all that an evaluation needs to come to an end.

    what is repeated takes a character    `progresses_grammar`
    the evaluation ends, on any text      `parsing_progresses`
-/
import PictureTree.Proofs.Document.Survey
import PictureTree.Proofs.Grammar.Evaluation
import PictureTree.Proofs.Grammar.Skipping

namespace PictureTree

open Rule

theorem progresses_grammar : grammar.Progresses Rule.consuming Rule.rank where
  bounds := consuming_bounds
  ranked := ranked_grammar
  repeats := by
    intro r
    cases r <;> decide +kernel

variable {e : Expr Rule} {s : List Char} {m : Match Rule}

/-- Whatever takes a character in any region takes one in a run. -/
theorem taken_ne_nil (he : (Region.empty Rule.consuming).left e = true) {sp : Spacing}
    (h : e.run grammar.start? sp s = some m) : m.taken ≠ [] := by
  have hshorter := progresses_grammar.consumes he h
  have hsplit : m.taken ++ m.rest = s := Expr.split_run grammar.splits_start? sp e h
  intro hnil
  rw [hnil, List.nil_append] at hsplit
  rw [hsplit] at hshorter
  exact Nat.lt_irrefl _ hshorter

/-- **Parsing always makes progress.**  Matches stay inside their text; rules that must
take a character, and whatever is repeated, in rules and between their parts, do so; a
rule comes back to itself only behind a character; and the evaluation of any rule at any
text ends, with what the program finds there and with nothing else. -/
theorem parsing_progresses :
    (∀ (sp : Spacing) (e : Expr Rule) s m,
      e.run grammar.start? sp s = some m → m.taken ++ m.rest = s) ∧
    (∀ r s m, r ∉ [document, body, customBody, refName, paramValue, colorValues] →
      grammar.start? r s = some m → m.taken ≠ []) ∧
    (∀ r, ∀ e ∈ (expr r).repeats, ∀ s m,
      e.run grammar.start? r.kind.spacing s = some m → m.taken ≠ []) ∧
    (∀ s, Expr.skipped.run grammar.start? .tight s = some (gap .loose s) ∧
      ∀ e ∈ (Expr.skipped : Expr Rule).repeats, ∀ m,
        e.run grammar.start? .tight s = some m → m.taken ≠ []) ∧
    (∀ r sp sp' s s',
      Relation.TransGen grammar.Asks ⟨sp, .once (.rule r), s⟩ ⟨sp', .once (.rule r), s'⟩ →
      ∃ u, u ≠ [] ∧ s = u ++ s') ∧
    (∀ r sp s o, grammar.Evaluates ⟨sp, .once (.rule r), s⟩ o ↔ grammar.start? r s = o) := by
  have hskipped : (Expr.skipped : Expr Rule).Progressive Rule.consuming := by decide
  refine ⟨?_, ?_, ?_, ?_, ?_, ?_⟩
  · intro sp e s m h
    exact Expr.split_run grammar.splits_start? sp e h
  · intro r s m hr h
    have hconsuming : (Region.empty Rule.consuming).left (.rule r) = true := by
      cases r <;> first | rfl | exact absurd (by decide) hr
    have hrun : (Expr.rule r).run grammar.start? .tight s = some m := h
    exact taken_ne_nil hconsuming hrun
  · intro r e he s m h
    exact taken_ne_nil (progresses_grammar.repeats r e he) h
  · intro s
    refine ⟨run_skipped grammar s, ?_⟩
    intro e he m h
    exact taken_ne_nil (hskipped e he) h
  · intro r sp sp' s s' h
    exact Grammar.shorter_of_reenters progresses_grammar h
  · intro r sp s o
    exact Grammar.evaluates_iff progresses_grammar nofun

end PictureTree
