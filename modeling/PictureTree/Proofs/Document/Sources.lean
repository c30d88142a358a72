/-
# `Proofs.Document.Sources` — a source is its items, one behind the other

With rules that are started afresh at every place (`Grammar.start?_eq`), a source
has items if nothing but blanks and comments is left behind the items at its
start.  Behind its first item it is a source again:

    the items of a source        `itemsOf`, `ofSource?_eq_itemsOf`
    whether it has any           `Parses`, `ofSource?_isSome_iff_parses`
    the first item               `parses_iff_of_item`, `ofSource?_of_item`
-/
import PictureTree.Proofs.Document.Readable
import PictureTree.Proofs.Grammar.Fixpoint
import PictureTree.Proofs.Grammar.Gaps

namespace PictureTree

open PictureTree.Expr Rule Trailer

/-- A rule of the notation matches what its expression matches. -/
theorem start?_eq_run (r : Rule) (s : List Char) : grammar.start? r s
    = ((expr r).run grammar.start? r.kind.spacing s).map (.wrap r.kind r) :=
  Grammar.start?_eq consuming_bounds ranked_grammar r s

/-- As many items as there are at the start of a text. -/
def itemsOf (s : List Char) : Match Rule :=
  repetitions (item.run grammar.start? .loose) .loose s

/-- Whether nothing but blanks and comments is behind the items of a text. -/
def Parses (s : List Char) : Prop :=
  (gap .loose (itemsOf s).rest : Match Rule).rest = []

theorem consumes_item_start? : Consumes (item.run grammar.start? .loose) :=
  consumes_start?_of_left consuming_bounds (by decide)

theorem leadingItems_eq_itemsOf {depth : Nat} {s : List Char} (h : 4 * (s.length + 1) ≤ depth) :
    leadingItems depth s = itemsOf s := by
  refine repetitions_congr (Expr.split_run (grammar.split_apply depth) .loose item) ?_
  intro s' hs'
  have hlength := hs'.length_le
  have hranks : grammar.ranks = 4 := rfl
  refine Grammar.run_apply_eq consuming_bounds ranked_grammar ?_ ?_
  · intro r hr
    have hrank := (ranked_grammar r).1
    rw [hranks] at hrank ⊢
    omega
  · rw [hranks]
    omega

theorem ofSource?_eq_itemsOf (source : String) : Item.ofSource? source
    = if (gap .loose (itemsOf source.toList).rest : Match Rule).rest = []
      then Item.ofNodes? (itemsOf source.toList).nodes else none := by
  have hleading : leadingItems (4 * (source.toList.length + 1)) source.toList
      = itemsOf source.toList :=
    leadingItems_eq_itemsOf (Nat.le_refl _)
  rw [← hleading]
  exact ofSource?_eq (Nat.le_succ _)

theorem ofSource?_isSome_iff_parses (source : String) :
    (Item.ofSource? source).isSome = true ↔ Parses source.toList := by
  constructor
  · intro h
    rw [ofSource?_eq_itemsOf] at h
    split at h
    · next hrest => exact hrest
    · cases h
  · intro h
    obtain ⟨depth, hdepth⟩ : ∃ depth, depth = 4 * (source.toList.length + 1) := ⟨_, rfl⟩
    have hstart : grammar.start? .document source.toList
        = grammar.apply (depth + 1) .document source.toList :=
      Grammar.start?_eq_apply consuming_bounds ranked_grammar (Nat.le_succ_of_le hdepth.ge)
    have hrun := run_document depth source.toList
    rw [leadingItems_eq_itemsOf hdepth.ge, if_pos (show _ = [] from h)] at hrun
    obtain ⟨m, hm, -⟩ := Option.map_eq_some_iff.mp hrun
    rw [ofSource?_isSome_iff_start?, hstart, Grammar.apply]
    have hbody : grammar.body .document = expr .document := rfl
    have hspacing : (grammar.kind .document).spacing = .loose := rfl
    rw [hbody, hspacing, hm]
    rfl

/-- Behind a gap stands a solid character, or nothing. -/
theorem isSolid_of_head_gap {s : List Char} {c : Char}
    (h : (gap .loose s : Match Rule).rest.head? = some c) : isSolid c = true := by
  obtain ⟨t, ht⟩ := List.head?_eq_some_iff.mp h
  have hgap : splitTrivia false (c :: t) = ([], c :: t) := by
    rw [← ht]
    exact splitTrivia_rest false s
  cases hspace : isSpace c with
  | true => simp [splitTrivia, hspace] at hgap
  | false =>
      cases hpercent : c == '%' with
      | true => simp [splitTrivia, hspace, hpercent] at hgap
      | false => simp only [isSolid, hspace, bne, hpercent, Bool.not_false, Bool.and_self]

/-! ## The first item -/

theorem itemsOf_of_none {s : List Char}
    (h : item.run grammar.start? .loose (gap .loose s : Match Rule).rest = none) :
    itemsOf s = .nothing s :=
  repetitions_of_none h

theorem itemsOf_of_some {s : List Char} {m : Match Rule}
    (h : item.run grammar.start? .loose (gap .loose s : Match Rule).rest = some m) :
    itemsOf s = gap .loose s ++ (m ++ itemsOf m.rest) :=
  repetitions_of_some consumes_item_start? h

theorem ofSource?_empty : Item.ofSource? "" = some [] := by
  cbv

/-- A source with an item at its start is what the item says, and the source behind it. -/
theorem ofSource?_of_item {source rest : String} {m : Match Rule} {items : List Item}
    (h : item.run grammar.start? .loose (gap .loose source.toList : Match Rule).rest = some m)
    (hrest : m.rest = rest.toList) (hitems : Item.ofNodes? m.nodes = some items) :
    Item.ofSource? source = (Item.ofSource? rest).map (items ++ ·) := by
  rw [ofSource?_eq_itemsOf, ofSource?_eq_itemsOf, itemsOf_of_some h, hrest]
  simp only [Match.rest_append, Match.nodes_append, nodes_gap, List.nil_append, ofNodes?_append,
    hitems, Option.bind_some]
  split <;> rfl

theorem parses_iff_of_item {s : List Char} {m : Match Rule}
    (h : item.run grammar.start? .loose (gap .loose s : Match Rule).rest = some m) :
    Parses s ↔ Parses m.rest := by
  rw [Parses, itemsOf_of_some h, Match.rest_append, Match.rest_append]
  rfl

end PictureTree
