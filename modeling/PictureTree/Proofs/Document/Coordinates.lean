/-
# `Proofs.Document.Coordinates` — how many coordinates a command has

The grammar asks for coordinates that a figure cannot be drawn without, and the reader
counts on them:

    \qline          two, exactly
    \psline         one at least, with or without others behind it
    \pscircle       none

The least number is computed from the expression of a rule (`Expr.least`), as the exact one
is by `Expr.times`, where there is one.  A command that is read from a node of the grammar
has so many (`Node.supplied_of_command?`), and so does every command of a source, at any
depth (`Item.supplied_of_ofSource?`).
-/
import PictureTree.Proofs.Document.Readable

namespace PictureTree

/-! ## Least counts -/

/-- The least number of nodes of a rule that an expression makes. -/
def Expr.least (r : Rule) : Expr Rule → Nat
  | .rule r' => if r' = r then 1 else 0
  | .seq a b => a.least r + b.least r
  | .alt a b => min (a.least r) (b.least r)
  | .opt _ | .star _ | .lit _ | .one _ | .notAhead _ | .atEnd => 0

/-- An expression makes no fewer nodes than are computed. -/
theorem Grammar.Derives.least_le {sp : Spacing} {e : Expr Rule} {t : List Char}
    {ns : List (Node Rule)} (h : grammar.Derives sp e t ns) (r : Rule) :
    e.least r ≤ (ns.filter fun n => n.rule = r).length := by
  induction h with
  | lit | one | absent | present | done | more | notAhead | atEnd => exact Nat.zero_le _
  | @rule sp r' t ns h ih =>
      rw [Expr.least]
      split <;> simp [Node.rule, *]
  | seq ha hu hb iha ihb =>
      rw [List.filter_append, List.length_append]
      exact Nat.add_le_add iha ihb
  | left h ih => exact (Nat.min_le_left _ _).trans ih
  | right h ih => exact (Nat.min_le_right _ _).trans ih

theorem Grammar.Makes.least_le {n : Node Rule} (h : grammar.Makes n)
    (hkind : grammar.kind n.rule ≠ .token) (r : Rule) : n.rule.expr.least r ≤ (n.all r).length :=
  (h.derives_parts hkind).least_le r

/-! ## Shape commands -/

/-- The least number of coordinates that a command is written with. -/
def ShapeCommand.writtenCoords : ShapeCommand → Nat
  | .segment => 2
  | .frame | .diamond | .triangle | .ellipse | .disk | .line | .polygon | .bezier | .dots
  | .curve _ => 1
  | .circle | .wedge | .arc _ | .dot | .grid | .axes | .plot _ => 0

/-- A shape command has its coordinates where its arguments are. -/
def Command.Supplied : Command → Prop
  | .shape command a => command.writtenCoords ≤ a.coords.length
  | _ => True

namespace Node

/-- The rules of shape commands ask for as many coordinates as these need. -/
theorem writtenCoords_le_least {r : Rule} {t : List Char} {parts : List (Node Rule)}
    {command : ShapeCommand} (h : shapeCommand? (.mk r t parts) = some command) :
    grammar.kind r ≠ .token ∧ command.writtenCoords ≤ r.expr.least .coord := by
  cases r with
  | plot =>
      obtain ⟨text, -, rfl⟩ := Option.map_eq_some_iff.mp h
      exact ⟨by decide, Nat.zero_le _⟩
  | arc =>
      obtain rfl := Option.some.inj h
      exact ⟨by decide, Nat.zero_le _⟩
  | curve =>
      obtain rfl := Option.some.inj h
      exact ⟨by decide, show 1 ≤ Expr.least .coord (Rule.expr .curve) by decide⟩
  | _ =>
      first
        | obtain rfl := Option.some.inj h
          decide
        | cases h

variable {n : Node Rule}

theorem exists_of_command?_shape {command : ShapeCommand} {a : Arguments}
    (h : n.command? = some (.shape command a)) :
    n.shapeCommand? = some command ∧ n.arguments? = some a := by
  unfold command? at h
  split at h
  all_goals simp [Option.bind_eq_some_iff] at h
  exact h

/-- A command that is read from a node of the grammar is supplied. -/
theorem supplied_of_command? {c : Command} (hn : grammar.Makes n) (h : n.command? = some c) :
    c.Supplied := by
  cases c with
  | shape command a =>
      obtain ⟨hcommand, harguments⟩ := exists_of_command?_shape h
      obtain ⟨hkind, hleast⟩ : grammar.kind n.rule ≠ .token ∧
          command.writtenCoords ≤ n.rule.expr.least .coord := by
        obtain ⟨r, t, parts⟩ := n
        exact writtenCoords_le_least hcommand
      obtain ⟨coords, hcoords, hlength⟩ := exists_coords? hn
      have hsame : a.coords = coords := by
        simp only [arguments?, hcoords, bind, Option.bind_some, Option.bind_eq_some_iff, pure,
          Option.some.injEq] at harguments
        obtain ⟨numbers, -, rfl⟩ := harguments
        rfl
      rw [Command.Supplied, hsame, hlength]
      exact hleast.trans (hn.least_le hkind .coord)
  | set | framedBox | defineColor | newColor | useColor | textColor | includePicture | path
    | text => trivial

end Node

/-! ## Commands of sources -/

mutual

/-- What holds of the commands that are read from nodes of the grammar holds of all commands
of an item. -/
theorem Item.forall_command_of_ofNode? {P : Command → Prop}
    (hread : ∀ n c, grammar.Makes n → n.command? = some c → P c) :
    ∀ (n : Node Rule) {item : Item}, grammar.Makes n → Item.ofNode? n = some item →
      ∀ c, .command c ∈ item.events → P c
  | .mk r t parts, item, hn, h => by
      rw [Item.ofNode?] at h
      split at h
      · simp only [bind, Option.bind_eq_some_iff, pure, Option.some.injEq] at h
        obtain ⟨head, -, items, hitems, rfl⟩ := h
        intro c hc
        have hinside : .command c ∈ Item.eventsOfAll items := by simpa [Item.events] using hc
        exact Item.forall_command_of_ofBody? hread parts (fun p hp => hn.of_mem hp) hitems c hinside
      · obtain ⟨c, hc, rfl⟩ := Option.map_eq_some_iff.mp h
        intro c' hc'
        obtain rfl : c' = c := by simpa [Item.events] using hc'
        exact hread _ c' hn hc

theorem Item.forall_command_of_ofBody? {P : Command → Prop}
    (hread : ∀ n c, grammar.Makes n → n.command? = some c → P c) :
    ∀ (ns : List (Node Rule)) {items : List Item}, (∀ n ∈ ns, grammar.Makes n) →
      Item.ofBody? ns = some items → ∀ c, .command c ∈ Item.eventsOfAll items → P c
  | [], _, _, h => by cases h
  | .mk r t parts :: rest, items, hns, h => by
      obtain ⟨hn, hrest⟩ := List.forall_mem_cons.mp hns
      rw [Item.ofBody?] at h
      split at h
      · exact Item.forall_command_of_ofNodes? hread parts (fun p hp => hn.of_mem hp) h
      · exact Item.forall_command_of_ofBody? hread rest hrest h

theorem Item.forall_command_of_ofNodes? {P : Command → Prop}
    (hread : ∀ n c, grammar.Makes n → n.command? = some c → P c) :
    ∀ (ns : List (Node Rule)) {items : List Item}, (∀ n ∈ ns, grammar.Makes n) →
      Item.ofNodes? ns = some items → ∀ c, .command c ∈ Item.eventsOfAll items → P c
  | [], _, _, h => by
      obtain rfl := Option.some.inj h
      intro c hc
      cases hc
  | n :: ns, items, hns, h => by
      obtain ⟨hn, hns⟩ := List.forall_mem_cons.mp hns
      simp only [Item.ofNodes?, bind, Option.bind_eq_some_iff, pure, Option.some.injEq] at h
      obtain ⟨item, hitem, items, hitems, rfl⟩ := h
      intro c hc
      rw [Item.eventsOfAll, List.mem_append] at hc
      rcases hc with hc | hc
      · exact Item.forall_command_of_ofNode? hread n hn hitem c hc
      · exact Item.forall_command_of_ofNodes? hread ns hns hitems c hc

end

/-- Every command of a source, at any depth, is supplied. -/
theorem Item.supplied_of_ofSource? {source : String} {items : List Item}
    (h : Item.ofSource? source = some items) :
    ∀ c, .command c ∈ Item.eventsOfAll items → c.Supplied := by
  simp only [Item.ofSource?, bind, Option.bind_eq_some_iff] at h
  obtain ⟨node, hnode, hitems⟩ := h
  have hderives : grammar.Derives .loose (.rule .document) source.toList [node] :=
    Grammar.derives_whole? hnode
  have hmade : grammar.Makes node := hderives.makes node List.mem_cons_self
  exact Item.forall_command_of_ofNodes? (fun _ _ => Node.supplied_of_command?) node.parts
    (fun p hp => hmade.of_mem hp) hitems

end PictureTree
