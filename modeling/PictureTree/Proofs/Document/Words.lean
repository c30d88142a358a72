/-
# `Proofs.Document.Words` — the text runs of a source

A text run is read from a node of the grammar, and a rule that takes a character
whenever it matches makes no node without text.  So a source has no empty text
runs, however deep in its scopes they stand.

The nodes of a match were made by the rules that it went through, and so were
the nodes inside them: what holds of the text that a rule takes holds of all
nodes of this rule (`Grammar.everywhere_apply`).
-/
import PictureTree.Proofs.Document.Survey
import PictureTree.Document.Reader

namespace PictureTree

variable {ρ : Type}

/-! ## Nodes inside nodes -/

mutual

/-- A property of the rule and the text of a node and of all nodes inside it. -/
def Node.Everywhere (P : ρ → List Char → Prop) : Node ρ → Prop
  | .mk r t parts => P r t ∧ Node.EverywhereAll P parts

/-- A property of the rules and the texts of some nodes and of all nodes inside
them. -/
def Node.EverywhereAll (P : ρ → List Char → Prop) : List (Node ρ) → Prop
  | [] => True
  | n :: ns => n.Everywhere P ∧ Node.EverywhereAll P ns

end

section Nodes

variable {P : ρ → List Char → Prop}

theorem Node.everywhereAll_append {ns ns' : List (Node ρ)} :
    EverywhereAll P (ns ++ ns') ↔ EverywhereAll P ns ∧ EverywhereAll P ns' := by
  induction ns with
  | nil => simp [EverywhereAll]
  | cons n ns ih => simp [EverywhereAll, ih, and_assoc]

theorem everywhereAll_gap (sp : Spacing) (s : List Char) :
    Node.EverywhereAll P (gap sp s : Match ρ).nodes := by
  cases sp <;> trivial

theorem everywhereAll_repeated {step : List Char → Option (Match ρ)}
    (hstep : ∀ {s m}, step s = some m → Node.EverywhereAll P m.nodes) (sp : Spacing) (bound : Nat)
    (s : List Char) : Node.EverywhereAll P (repeated step sp bound s).nodes := by
  fun_induction repeated step sp bound s with
  | case1 s => trivial
  | case2 bound s g hnone => trivial
  | case3 bound s g m hm ih =>
      simp only [Match.nodes_append, Node.everywhereAll_append]
      exact ⟨everywhereAll_gap sp s, hstep hm, ih⟩

/-- The nodes of a match are those of the rules that it went through. -/
theorem Expr.everywhereAll_run {call : ρ → List Char → Option (Match ρ)}
    (hcall : ∀ {r s m}, call r s = some m → Node.EverywhereAll P m.nodes) {sp : Spacing}
    {e : Expr ρ} {s : List Char} {m : Match ρ} (h : e.run call sp s = some m) :
    Node.EverywhereAll P m.nodes := by
  induction e generalizing s m with
  | lit t =>
      obtain ⟨rest, -, rfl⟩ := Option.map_eq_some_iff.mp h
      trivial
  | one p =>
      cases s with
      | nil => cases h
      | cons c s =>
          obtain ⟨-, rfl⟩ : p.test c = true ∧ _ = m := by simpa [run] using h
          trivial
  | rule r => exact hcall h
  | seq a b iha ihb =>
      simp only [run, bind, Option.bind_eq_some_iff, pure, Option.some.injEq] at h
      obtain ⟨m, hm, n, hn, rfl⟩ := h
      simp only [Match.nodes_append, Node.everywhereAll_append]
      exact ⟨iha hm, everywhereAll_gap sp m.rest, ihb hn⟩
  | alt a b iha ihb =>
      cases ha : run call sp a s with
      | none => exact ihb (by simpa [run, ha] using h)
      | some m' =>
          obtain rfl : m' = m := by simpa [run, ha] using h
          exact iha ha
  | opt e ih =>
      obtain rfl := Option.some.inj h
      cases he : run call sp e s with
      | none => trivial
      | some m => exact ih he
  | star e ih =>
      cases he : run call sp e s with
      | none =>
          obtain rfl : Match.nothing s = m := by simpa [run, he] using h
          trivial
      | some m' =>
          obtain rfl : m' ++ repeated (run call sp e) sp m'.rest.length m'.rest = m := by
            simpa [run, he] using h
          rw [Match.nodes_append, Node.everywhereAll_append]
          exact ⟨ih he, everywhereAll_repeated ih sp _ _⟩
  | notAhead e ih =>
      cases he : run call sp e s with
      | none =>
          obtain rfl : Match.nothing s = m := by simpa [run, he] using h
          trivial
      | some m' => simp [run, he] at h
  | atEnd =>
      obtain ⟨-, rfl⟩ : s = [] ∧ Match.nothing s = m := by simpa [run] using h
      trivial

/-- What holds of everything that a rule takes holds of every node of the rule. -/
theorem Grammar.everywhere_apply {g : Grammar ρ}
    (hP : ∀ {depth r s m}, g.apply depth r s = some m → P r m.taken) {depth : Nat} {r : ρ}
    {s : List Char} {m : Match ρ} (h : g.apply depth r s = some m) :
    Node.EverywhereAll P m.nodes := by
  induction depth generalizing r s m with
  | zero => cases h
  | succ depth ih =>
      have htaken : P r m.taken := hP h
      obtain ⟨n, hn, rfl⟩ := Option.map_eq_some_iff.mp h
      have hparts : Node.EverywhereAll P n.nodes := Expr.everywhereAll_run ih hn
      refine ⟨⟨htaken, ?_⟩, trivial⟩
      cases g.kind r with
      | token => trivial
      | phrase | compound => exact hparts

end Nodes

/-! ## Text runs -/

mutual

/-- No text run of an item is empty. -/
def Item.Worded : Item → Prop
  | .scope _ items => Item.WordedAll items
  | .command c => c ≠ .text ""

/-- No text run of some items is empty. -/
def Item.WordedAll : List Item → Prop
  | [] => True
  | item :: items => item.Worded ∧ Item.WordedAll items

end

/-- A node of a text run has a text. -/
def Node.HasText (r : Rule) (t : List Char) : Prop := r = .text → t ≠ []

theorem Node.command?_eq_text {n : Node Rule} {w : String} (h : n.command? = some (.text w)) :
    n.rule = .text ∧ w = String.ofList n.text := by
  unfold command? at h
  split at h <;> simp [bind, Option.bind_eq_some_iff] at h
  next hrule => exact ⟨hrule, h.symm⟩

mutual

theorem Item.worded_of_ofNode? : ∀ (n : Node Rule) {item : Item}, n.Everywhere Node.HasText →
    Item.ofNode? n = some item → item.Worded
  | .mk r t parts, item, hn, h => by
      rw [Item.ofNode?] at h
      split at h
      · simp only [bind, Option.bind_eq_some_iff, pure, Option.some.injEq] at h
        obtain ⟨head, -, items, hitems, rfl⟩ := h
        exact Item.worded_of_ofBody? parts hn.2 hitems
      · obtain ⟨c, hc, rfl⟩ := Option.map_eq_some_iff.mp h
        rintro rfl
        obtain ⟨hrule, htext⟩ := Node.command?_eq_text hc
        have hempty : t = [] := by simpa [Node.text] using (congrArg String.toList htext).symm
        exact hn.1 hrule hempty

theorem Item.worded_of_ofBody? : ∀ (ns : List (Node Rule)) {items : List Item},
    Node.EverywhereAll Node.HasText ns → Item.ofBody? ns = some items → Item.WordedAll items
  | [], _, _, h => by cases h
  | .mk r t parts :: rest, items, hns, h => by
      rw [Item.ofBody?] at h
      split at h
      · exact Item.worded_of_ofNodes? parts hns.1.2 h
      · exact Item.worded_of_ofBody? rest hns.2 h

theorem Item.worded_of_ofNodes? : ∀ (ns : List (Node Rule)) {items : List Item},
    Node.EverywhereAll Node.HasText ns → Item.ofNodes? ns = some items → Item.WordedAll items
  | [], _, _, h => by
      obtain rfl := Option.some.inj h
      trivial
  | n :: ns, items, hns, h => by
      simp only [Item.ofNodes?, bind, Option.bind_eq_some_iff, pure, Option.some.injEq] at h
      obtain ⟨item, hitem, items, hitems, rfl⟩ := h
      exact ⟨Item.worded_of_ofNode? n hns.1 hitem, Item.worded_of_ofNodes? ns hns.2 hitems⟩

end

/-- A source has no empty text runs. -/
theorem Item.worded_of_ofSource? {source : String} {items : List Item}
    (h : Item.ofSource? source = some items) : Item.WordedAll items := by
  have hnodes {depth : Nat} {r : Rule} {s : List Char} {m : Match Rule}
      (hm : grammar.apply depth r s = some m) : Node.EverywhereAll Node.HasText m.nodes :=
    Grammar.everywhere_apply (fun {depth r s m} hm hr =>
      Region.not_holds_taken_apply consuming_bounds depth r s m (by rw [hr]; rfl) hm) hm
  simp only [Item.ofSource?, bind, Option.bind_eq_some_iff] at h
  obtain ⟨node, hnode, hitems⟩ := h
  unfold Grammar.whole? at hnode
  split at hnode
  · next n hstart =>
      obtain rfl := Option.some.inj hnode
      obtain ⟨r, t, parts⟩ := n
      exact Item.worded_of_ofNodes? parts (hnodes hstart).1.2 hitems
  · cases hnode

end PictureTree
