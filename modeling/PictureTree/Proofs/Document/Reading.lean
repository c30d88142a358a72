/-
# `Proofs.Document.Reading` — a source is its leading items

A document is a repetition of items behind which nothing but blanks and comments
is left, and what it says is what those items say, in order.  The depth to which
rules are entered does not matter, as long as it suffices for the length of the
source; so two sources can be compared at one depth.
-/
import PictureTree.Document.Reader
import PictureTree.Proofs.Document.Survey

namespace PictureTree

open PictureTree.Expr Rule Trailer

/-! ## Documents as repeated items -/

theorem splitTrivia_rest (inComment : Bool) (s : List Char) :
    splitTrivia false (splitTrivia inComment s).2 = ([], (splitTrivia inComment s).2) := by
  fun_induction splitTrivia inComment s with
  | case1 => rfl
  | case2 inComment c s here hhere =>
      cases inComment with
      | true => simp [here] at hhere
      | false => simp only [splitTrivia, here] at hhere ⊢; rw [hhere]
  | case3 inComment c s here still hstill taken rest hrest ih =>
      rw [hrest] at ih
      exact ih

theorem gap_rest_gap (s : List Char) :
    (gap .loose (gap .loose s : Match Rule).rest : Match Rule).rest
      = (gap .loose s : Match Rule).rest := by
  simp only [gap, splitTrivia_rest]

/-- As many items as there are at the start of a text. -/
def leadingItems (depth : Nat) (s : List Char) : Match Rule :=
  repetitions (item.run (grammar.apply depth) .loose) .loose s

theorem consumes_item (depth : Nat) : Consumes (item.run (grammar.apply depth) .loose) :=
  consumes_of_left consuming_bounds (by decide)

theorem run_document (depth : Nat) (s : List Char) :
    ((expr .document).run (grammar.apply depth) .loose s).map (fun m => (m.rest, m.nodes))
      = if (gap .loose (leadingItems depth s).rest : Match Rule).rest = []
        then some ([], (leadingItems depth s).nodes) else none := by
  have hstart : (Expr.lit []).run (grammar.apply depth) .loose s = some (.nothing s) := rfl
  have hend : ∀ t, Expr.atEnd.run (grammar.apply depth) .loose t
      = if t = [] then some (.nothing t) else none := fun t => by
    simp only [Expr.run, List.isEmpty_iff]
  have hbody : expr .document = .seq (.lit []) (.seq (.star item) .atEnd) := rfl
  have hconsumes : Consumes (item.run (grammar.apply depth) .loose) := consumes_item depth
  unfold leadingItems
  rw [hbody, run_seq_of_some hstart, Match.rest_nothing]
  cases hm : item.run (grammar.apply depth) .loose (gap .loose s : Match Rule).rest with
  | none =>
      rw [run_seq_of_some (run_star_of_none hm), repetitions_of_none hm, hend, Match.rest_nothing,
        Match.rest_nothing, gap_rest_gap]
      split
      · next h => simp [join, nodes_gap, h]
      · rfl
  | some m =>
      rw [run_seq_of_some (run_star_of_some hm), repetitions_of_some hconsumes hm, hend]
      simp only [Match.rest_append]
      generalize repetitions (item.run (grammar.apply depth) .loose) .loose m.rest = n
      by_cases h : (gap .loose n.rest : Match Rule).rest = []
      · simp [join, nodes_gap, h]
      · simp [h]

/-- A source says what its leading items say, if nothing but blanks is behind them. -/
theorem ofSource?_eq {source : String} {depth : Nat}
    (hdepth : 4 * (source.toList.length + 1) ≤ depth + 1) : Item.ofSource? source
      = if (gap .loose (leadingItems depth source.toList).rest : Match Rule).rest = []
        then Item.ofNodes? (leadingItems depth source.toList).nodes else none := by
  have hstart : grammar.start? .document source.toList
      = grammar.apply (depth + 1) .document source.toList :=
    Grammar.start?_eq_apply consuming_bounds ranked_grammar hdepth
  have hrun := run_document depth source.toList
  rw [Item.ofSource?, Grammar.whole?, hstart, Grammar.apply]
  have hbody : grammar.body .document = expr .document := rfl
  have hkind : grammar.kind .document = .phrase := rfl
  rw [hbody, hkind]
  cases hm : (expr .document).run (grammar.apply depth) .loose source.toList with
  | none =>
      simp only [RuleKind.spacing, hm, Option.map_none] at hrun ⊢
      split at hrun
      · cases hrun
      · next h => rw [if_neg h]; rfl
  | some m =>
      simp only [RuleKind.spacing, hm, Option.map_some] at hrun ⊢
      split at hrun
      · next h =>
          obtain ⟨hrest, hnodes⟩ := Prod.mk.inj (Option.some.inj hrun)
          rw [if_pos h, ← hnodes]
          simp [Match.wrap, hrest, Node.parts]
      · cases hrun

/-! ## Items of nodes -/

theorem ofNodes?_append (xs ys : List (Node Rule)) : Item.ofNodes? (xs ++ ys)
    = (Item.ofNodes? xs).bind fun items => (Item.ofNodes? ys).map (items ++ ·) := by
  induction xs with
  | nil => cases h : Item.ofNodes? ys <;> simp [Item.ofNodes?, h]
  | cons x xs ih =>
      cases hx : Item.ofNode? x <;> cases hxs : Item.ofNodes? xs <;>
        cases hys : Item.ofNodes? ys <;> simp [Item.ofNodes?, ih, hx, hxs, hys]

theorem eq_nil_of_ofNodes? {ns : List (Node Rule)} (h : Item.ofNodes? ns = some []) : ns = [] := by
  cases ns with
  | nil => rfl
  | cons n ns =>
      obtain ⟨i, -, h⟩ := Option.bind_eq_some_iff.mp h
      obtain ⟨is, -, h⟩ := Option.bind_eq_some_iff.mp h
      cases h

/-- Only text is read from the node itself; every other item is read from the parts. -/
theorem ofNode?_eq {r : Rule} (hr : r ≠ .text) (t t' : List Char) (parts : List (Node Rule)) :
    Item.ofNode? (.mk r t parts) = Item.ofNode? (.mk r t' parts) := by
  cases r with
  | text => exact absurd rfl hr
  | _ => rfl

theorem ofNodes?_word (word : List Char) : Item.ofNodes? [.mk .text word []]
    = some [.command (.text (String.ofList word))] := by
  simp [Item.ofNodes?, Item.ofNode?, Node.isScope, Node.command?, Node.rule, Node.text]

end PictureTree
