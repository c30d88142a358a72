/-
# `Proofs.Document.PathCommands` — where path commands stand

The grammar has two kinds of bodies.  One is that of a custom path, and only
there it knows path commands; in all others `\lineto` is an unknown macro, that
is, text.  Bodies of both kinds stand inside each other at any depth, and the
items are read from the nodes without a look at what is around them.

`Item.pathsPlaced_of_ofSource?` says that a path command stands directly in a
custom path wherever a source has one.  What a body may have for its parts is
computed from its rule (`Expr.calls`), and an induction on the nodes carries it
to the items.
-/
import PictureTree.Proofs.Document.Readable

namespace PictureTree

/-! ## Items -/

mutual

/-- Every path command in an item stands directly in a custom path; `custom` says
whether the item itself does. -/
def Item.PathsPlaced (custom : Prop) : Item → Prop
  | .scope head items => Item.PathsPlacedAll (head.kind = .custom) items
  | .command (.path _) => custom
  | .command _ => True

/-- Every path command in some items stands directly in a custom path; `custom`
says whether the items themselves do. -/
def Item.PathsPlacedAll (custom : Prop) : List Item → Prop
  | [] => True
  | item :: items => item.PathsPlaced custom ∧ Item.PathsPlacedAll custom items

end

theorem Item.pathsPlaced_command {custom : Prop} {c : Command}
    (h : ∀ k, c = .path k → custom) : (Item.command c).PathsPlaced custom := by
  cases c with
  | path k => exact h k rfl
  | set | shape | framedBox | defineColor | newColor | useColor | textColor | includePicture
    | text => trivial

/-! ## Rules -/

namespace Rule

/-- Only a custom path has the body of one. -/
theorem eq_custom_of_customBody_mem_calls {r : Rule} (h : Rule.customBody ∈ r.expr.calls) :
    r = .custom := by
  revert h
  cases r <;> decide

/-- Only the body of a custom path has path commands. -/
theorem eq_customBody_of_pathCommand_mem_calls {r k : Rule} (hk : k ∈ pathCommands)
    (h : k ∈ r.expr.calls) : r = .customBody := by
  revert h
  revert k
  cases r <;> decide

end Rule

/-! ## Nodes -/

namespace Node

variable {n : Node Rule}

/-- A path command is read from a node of its rules. -/
theorem rule_mem_pathCommands {k : PathCommand} (h : n.command? = some (.path k)) :
    n.rule ∈ Rule.pathCommands := by
  unfold command? at h
  split at h <;> simp [bind, Option.bind_eq_some_iff] at h
  all_goals
    next hrule =>
      rw [hrule]
      decide

/-- The head of a custom path is read from a node of its rule. -/
theorem kind_of_scopeHead? {head : ScopeHead} (h : n.scopeHead? = some head)
    (hrule : n.rule = .custom) : head.kind = .custom := by
  rw [scopeHead?, hrule] at h
  obtain rfl := Option.some.inj h
  rfl

end Node

mutual

theorem Item.pathsPlaced_of_ofNode? {custom : Prop} : ∀ (n : Node Rule) {item : Item},
    grammar.Makes n → (n.rule ∈ Rule.pathCommands → custom) → Item.ofNode? n = some item →
    item.PathsPlaced custom
  | .mk r t parts, item, hn, hcustom, h => by
      rw [Item.ofNode?] at h
      split at h
      · simp only [bind, Option.bind_eq_some_iff, pure, Option.some.injEq] at h
        obtain ⟨head, hhead, items, hitems, rfl⟩ := h
        refine Item.pathsPlaced_of_ofBody? parts (fun p hp => hn.of_mem hp) ?_ hitems
        intro p hp hbody
        have hcall : Rule.customBody ∈ r.expr.calls := hbody ▸ hn.rule_mem_calls p hp
        exact Node.kind_of_scopeHead? hhead (Rule.eq_custom_of_customBody_mem_calls hcall)
      · obtain ⟨c, hc, rfl⟩ := Option.map_eq_some_iff.mp h
        refine Item.pathsPlaced_command ?_
        rintro k rfl
        exact hcustom (Node.rule_mem_pathCommands hc)

theorem Item.pathsPlaced_of_ofBody? {custom : Prop} : ∀ (ns : List (Node Rule)) {items : List Item},
    (∀ n ∈ ns, grammar.Makes n) → (∀ n ∈ ns, n.rule = .customBody → custom) →
    Item.ofBody? ns = some items → Item.PathsPlacedAll custom items
  | [], _, _, _, h => by cases h
  | .mk r t parts :: rest, items, hns, hcustom, h => by
      obtain ⟨hn, hrest⟩ := List.forall_mem_cons.mp hns
      obtain ⟨hbody, hcustom⟩ := List.forall_mem_cons.mp hcustom
      rw [Item.ofBody?] at h
      split at h
      · refine Item.pathsPlaced_of_ofNodes? parts (fun p hp => hn.of_mem hp) ?_ h
        intro p hp hpath
        exact hbody (Rule.eq_customBody_of_pathCommand_mem_calls hpath (hn.rule_mem_calls p hp))
      · exact Item.pathsPlaced_of_ofBody? rest hrest hcustom h

theorem Item.pathsPlaced_of_ofNodes? {custom : Prop} : ∀ (ns : List (Node Rule)) {items : List Item},
    (∀ n ∈ ns, grammar.Makes n) → (∀ n ∈ ns, n.rule ∈ Rule.pathCommands → custom) →
    Item.ofNodes? ns = some items → Item.PathsPlacedAll custom items
  | [], _, _, _, h => by
      obtain rfl := Option.some.inj h
      trivial
  | n :: ns, items, hns, hcustom, h => by
      obtain ⟨hn, hns⟩ := List.forall_mem_cons.mp hns
      obtain ⟨hpath, hcustom⟩ := List.forall_mem_cons.mp hcustom
      simp only [Item.ofNodes?, bind, Option.bind_eq_some_iff, pure, Option.some.injEq] at h
      obtain ⟨item, hitem, items, hitems, rfl⟩ := h
      exact ⟨Item.pathsPlaced_of_ofNode? n hn hpath hitem,
        Item.pathsPlaced_of_ofNodes? ns hns hcustom hitems⟩

end

/-- The path commands of a source stand directly in custom paths. -/
theorem Item.pathsPlaced_of_ofSource? {source : String} {items : List Item}
    (h : Item.ofSource? source = some items) : Item.PathsPlacedAll False items := by
  simp only [Item.ofSource?, bind, Option.bind_eq_some_iff] at h
  obtain ⟨node, hnode, hitems⟩ := h
  obtain ⟨m, hm⟩ : ∃ m, grammar.start? .document source.toList = some m := by
    unfold Grammar.whole? at hnode
    split at hnode
    · next hstart => exact ⟨_, hstart⟩
    · cases hnode
  obtain ⟨node', hnode', hrule, hmade⟩ := exists_whole?_of_start? hm
  obtain rfl : node' = node := Option.some.inj (hnode'.symm.trans hnode)
  refine Item.pathsPlaced_of_ofNodes? node'.parts (fun p hp => hmade.of_mem hp) ?_ hitems
  intro p hp hpath
  have hdocument :=
    Rule.eq_customBody_of_pathCommand_mem_calls hpath (hmade.rule_mem_calls p hp)
  rw [hrule] at hdocument
  cases hdocument

end PictureTree
