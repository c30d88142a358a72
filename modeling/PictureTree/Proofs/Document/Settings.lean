/-
# `Proofs.Document.Settings` — the settings of a source

Settings stand in many places: behind `\psset`, in the brackets of pictures, of custom
paths, of turned scopes and of commands, and at any depth.  All of them, in the order in
which they are drawn, are read of nodes of one rule, which stand in the source in the same
order:

    commands   the settings among the parts, or those in brackets (`Node.command_sublist`)
    scopes     those in brackets, and then those of the body, which is the last part
               (`EndsInBody`)

So the settings of a source are its assignments, and the values are kept as these are
written; `Item.settings_as_written` says for which values this keeps the braces nested.
-/
import PictureTree.Proofs.Document.Assignments

namespace PictureTree

/-! ## The settings of a document -/

/-- The settings with which a scope begins. -/
def ScopeHead.settings : ScopeHead → List Param
  | .picture _ params _ | .custom _ params | .turn params _ _ => params
  | .block | .place .. => []

/-- The settings of a command. -/
def Command.settings : Command → List Param
  | .set params | .includePicture params _ => params
  | .shape _ arguments => arguments.params
  | .framedBox .. | .defineColor .. | .newColor .. | .useColor _ | .textColor .. | .path _
  | .text _ => []

/-- The settings of an event. -/
def Event.settings : Event → List Param
  | .enter head => head.settings
  | .command c => c.settings
  | .exit _ => []

/-- The settings of some items, in the order in which they are drawn. -/
def Item.settings (items : List Item) : List Param :=
  (Item.eventsOfAll items).flatMap Event.settings

open PictureTree.Expr Rule

/-! ## Settings among the parts -/

/-- The rule of settings. -/
def isSetting (r : Rule) : Bool := r == .param

namespace Node

theorem outermost_of_ne {r : Rule} (hr : isSetting r = false) (t : List Char)
    (parts : List (Node Rule)) :
    outermost isSetting (.mk r t parts) = outermostAll isSetting parts := by
  rw [outermost, hr, if_neg Bool.false_ne_true]

theorem outermost_sublist {ns : List (Node Rule)} {n : Node Rule} (h : n ∈ ns) :
    (n.outermost isSetting).Sublist (outermostAll isSetting ns) := by
  induction ns with
  | nil => cases h
  | cons m ns ih =>
      rw [outermostAll]
      rcases List.mem_cons.mp h with rfl | h
      · exact List.sublist_append_left _ _
      · exact (ih h).trans (List.sublist_append_right _ _)

theorem filter_sublist (ns : List (Node Rule)) :
    (ns.filter fun n => n.rule = .param).Sublist (outermostAll isSetting ns) := by
  induction ns with
  | nil => exact .slnil
  | cons n ns ih =>
      obtain ⟨r, t, parts⟩ := n
      rw [outermostAll]
      by_cases hr : r = .param
      · subst hr
        exact ih.cons_cons _
      · rw [List.filter_cons_of_neg (by simp [rule, hr])]
        exact ih.trans (List.sublist_append_right _ _)

/-- The settings that are read of the parts are those of nodes inside them. -/
theorem settings_sublist (n : Node Rule) :
    n.settings.Sublist ((outermostAll isSetting n.parts).map param) :=
  (filter_sublist n.parts).map param

theorem params_sublist (n : Node Rule) :
    n.params.Sublist ((outermostAll isSetting n.parts).map param) := by
  rw [params]
  cases hfirst : n.first? .params with
  | none => exact List.nil_sublist _
  | some p =>
      obtain ⟨r, t, parts⟩ := p
      have hrule := List.find?_some hfirst
      obtain rfl : r = .params := of_decide_eq_true hrule
      have hmem : Node.mk .params t parts ∈ n.parts := List.mem_of_find?_eq_some hfirst
      have hinside := outermost_sublist hmem
      rw [outermost_of_ne rfl] at hinside
      exact (settings_sublist (.mk .params t parts)).trans (hinside.map param)

theorem params_of_arguments? {n : Node Rule} {a : Arguments} (h : n.arguments? = some a) :
    a.params = n.params := by
  simp only [arguments?, bind, Option.bind_eq_some_iff, pure, Option.some.injEq] at h
  obtain ⟨coords, -, numbers, -, rfl⟩ := h
  rfl

/-- A command has the settings among the parts, or those in brackets, or none. -/
theorem settings_of_command? {n : Node Rule} {c : Command} (h : n.command? = some c) :
    c.settings = n.settings ∨ c.settings = n.params ∨ c.settings = [] := by
  -- the branches of other kinds of commands are closed by `simp`
  cases c with
  | set params =>
      rw [command?] at h
      split at h
      all_goals simp [Option.bind_eq_some_iff] at h
      exact .inl h.symm
  | shape command a =>
      rw [command?] at h
      split at h
      all_goals simp [Option.bind_eq_some_iff] at h
      exact .inr (.inl (params_of_arguments? h.2))
  | includePicture params path =>
      rw [command?] at h
      split at h
      all_goals simp [Option.bind_eq_some_iff] at h
      exact .inr (.inl h.2.symm)
  | framedBox | defineColor | newColor | useColor | textColor | path | text =>
      exact .inr (.inr rfl)

theorem command_sublist {n : Node Rule} {c : Command} (h : n.command? = some c) :
    c.settings.Sublist ((outermostAll isSetting n.parts).map param) := by
  rcases settings_of_command? h with h | h | h <;> rw [h]
  · exact n.settings_sublist
  · exact n.params_sublist
  · exact List.nil_sublist _

end Node

/-! ## Settings of scopes -/

namespace Expr

/-- Whether an expression makes one node of a body, behind all its other nodes. -/
def endsInBody : Expr Rule → Bool
  | .rule r => Node.isBody r
  | .seq a b => (a.calls.all fun r => !Node.isBody r) && b.endsInBody
      || a.endsInBody && b.calls.isEmpty
  | .alt a b => a.endsInBody && b.endsInBody
  | .opt _ | .star _ | .lit _ | .one _ | .notAhead _ | .atEnd => false

theorem endsInBody_of_isScope : ∀ r : Rule, Node.isScope r = true → r.expr.endsInBody = true := by
  intro r
  cases r <;> decide

end Expr

/-- Behind some nodes that are no bodies, the node of a body. -/
structure EndsInBody (ns xs : List (Node Rule)) (b : Node Rule) : Prop where
  split : ns = xs ++ [b]
  last : Node.isBody b.rule = true
  first : ∀ x ∈ xs, Node.isBody x.rule = false

theorem Grammar.Derives.exists_endsInBody {sp : Spacing} {e : Expr Rule} {t : List Char}
    {ns : List (Node Rule)} (h : grammar.Derives sp e t ns) (he : e.endsInBody = true) :
    ∃ xs b, EndsInBody ns xs b := by
  induction h with
  | rule h => exact ⟨[], _, rfl, he, fun x hx => by cases hx⟩
  | @seq sp a b t u v ns ms ha hu hb iha ihb =>
      rw [Expr.endsInBody, Bool.or_eq_true, Bool.and_eq_true, Bool.and_eq_true] at he
      rcases he with ⟨hcalls, hbody⟩ | ⟨hbody, hcalls⟩
      · obtain ⟨xs, n, hms⟩ := ihb hbody
        refine ⟨ns ++ xs, n, ?_, hms.last, ?_⟩
        · rw [hms.split, List.append_assoc]
        · intro x hx
          rcases List.mem_append.mp hx with hx | hx
          · have := List.all_eq_true.mp hcalls x.rule (ha.rule_mem_calls x hx)
            simpa using this
          · exact hms.first x hx
      · obtain ⟨xs, n, hns⟩ := iha hbody
        have hms : ms = [] := by
          refine List.eq_nil_iff_forall_not_mem.mpr ?_
          intro m hm
          have := hb.rule_mem_calls m hm
          rw [List.isEmpty_iff.mp hcalls] at this
          cases this
        refine ⟨xs, n, ?_, hns.last, hns.first⟩
        rw [hms, List.append_nil, hns.split]
  | left h ih => exact ih (Bool.and_eq_true _ _ ▸ he).1
  | right h ih => exact ih (Bool.and_eq_true _ _ ▸ he).2
  | lit | one | absent | present | done | more | notAhead | atEnd => cases he

theorem EndsInBody.eq_of_mem {ns xs : List (Node Rule)} {b n : Node Rule}
    (h : EndsInBody ns xs b) (hn : n ∈ ns) (hbody : Node.isBody n.rule = true) : n = b := by
  rw [h.split] at hn
  rcases List.mem_append.mp hn with hn | hn
  · rw [h.first n hn] at hbody
    cases hbody
  · exact List.mem_singleton.mp hn

/-- A scope has the settings in brackets, or none. -/
theorem Node.settings_of_scopeHead? {n : Node Rule} {head : ScopeHead}
    (h : n.scopeHead? = some head) : head.settings = n.params ∨ head.settings = [] := by
  cases head with
  | block | place => exact .inr rfl
  | picture starred params corners =>
      rw [scopeHead?] at h
      split at h
      all_goals simp [Option.bind_eq_some_iff] at h
      exact .inl h.2.2.symm
  | custom starred params =>
      rw [scopeHead?] at h
      split at h
      all_goals simp [Option.bind_eq_some_iff] at h
      exact .inl h.2.symm
  | turn params center angle =>
      rw [scopeHead?] at h
      split at h
      all_goals simp [Option.bind_eq_some_iff] at h
      obtain ⟨_, -, -, _, -, -, h⟩ := h
      exact .inl h.symm

/-- The settings of a scope are read of the parts in front of its body. -/
theorem EndsInBody.scopeHead_sublist {r : Rule} {t : List Char} {ns xs : List (Node Rule)}
    {b : Node Rule} (h : EndsInBody ns xs b) {head : ScopeHead}
    (hhead : Node.scopeHead? (.mk r t ns) = some head) :
    head.settings.Sublist ((Node.outermostAll isSetting xs).map Node.param) := by
  have hparams : Node.params (.mk r t ns) = Node.params (.mk r t xs) := by
    have hlast : ¬ b.rule = .params := by
      intro hrule
      have hbody := h.last
      rw [hrule] at hbody
      cases hbody
    rw [Node.params, Node.params, Node.first?, Node.first?, Node.parts, Node.parts, h.split,
      List.find?_append]
    simp [hlast]
  have hsettings := Node.settings_of_scopeHead? hhead
  rcases hsettings with hsettings | hsettings <;> rw [hsettings]
  · rw [hparams]
    exact Node.params_sublist (.mk r t xs)
  · exact List.nil_sublist _

/-! ## Settings of items -/

theorem Item.settings_append (xs ys : List Item) :
    Item.settings (xs ++ ys) = Item.settings xs ++ Item.settings ys := by
  rw [settings, Item.eventsOfAll_append, List.flatMap_append]
  rfl

theorem Item.settings_scope (head : ScopeHead) (items : List Item) :
    Item.settings [.scope head items] = head.settings ++ Item.settings items := by
  simp [settings, eventsOfAll, events, Event.settings]

theorem Item.settings_command (c : Command) : Item.settings [.command c] = c.settings := by
  simp [settings, eventsOfAll, events, Event.settings]

/-- Neither a scope nor a command is a setting. -/
theorem isSetting_of_ofNode? {r : Rule} {t : List Char} {parts : List (Node Rule)} {item : Item}
    (h : Item.ofNode? (.mk r t parts) = some item) : isSetting r = false := by
  refine Bool.eq_false_iff.mpr ?_
  intro hr
  obtain rfl : r = .param := eq_of_beq hr
  cases h

mutual

/-- The settings of an item are those of nodes inside its node, in order. -/
theorem Item.settings_ofNode? : ∀ (n : Node Rule) {item : Item}, grammar.Makes n →
    Item.ofNode? n = some item →
    (Item.settings [item]).Sublist ((n.outermost isSetting).map Node.param)
  | .mk r t parts, item, hn, h => by
      rw [Node.outermost_of_ne (isSetting_of_ofNode? h)]
      rw [Item.ofNode?] at h
      split at h
      · next hscope =>
          simp only [bind, Option.bind_eq_some_iff, pure, Option.some.injEq] at h
          obtain ⟨head, hhead, items, hitems, rfl⟩ := h
          have htoken : grammar.kind r ≠ .token := by
            revert hscope
            cases r <;> decide
          obtain ⟨xs, b, hends⟩ :=
            (hn.derives_parts htoken).exists_endsInBody (Expr.endsInBody_of_isScope r hscope)
          obtain ⟨b', hb', hbody, hsettings⟩ :=
            Item.settings_ofBody? parts (fun p hp => hn.of_mem hp) hitems
          obtain rfl := hends.eq_of_mem hb' hbody
          have hparts : parts = xs ++ [b'] := hends.split
          rw [Item.settings_scope, hparts, Node.outermostAll_append, List.map_append]
          refine (hends.scopeHead_sublist hhead).append ?_
          rwa [Node.outermostAll, Node.outermostAll, List.append_nil]
      · obtain ⟨c, hc, rfl⟩ := Option.map_eq_some_iff.mp h
        rw [Item.settings_command]
        exact Node.command_sublist hc

/-- The items of a body are read of the first node of one. -/
theorem Item.settings_ofBody? : ∀ (ns : List (Node Rule)) {items : List Item},
    (∀ n ∈ ns, grammar.Makes n) → Item.ofBody? ns = some items →
    ∃ b ∈ ns, Node.isBody b.rule = true ∧
      (Item.settings items).Sublist ((b.outermost isSetting).map Node.param)
  | [], _, _, h => by cases h
  | .mk r t parts :: rest, items, hns, h => by
      obtain ⟨hn, hrest⟩ := List.forall_mem_cons.mp hns
      rw [Item.ofBody?] at h
      split at h
      · next hbody =>
          refine ⟨.mk r t parts, List.mem_cons_self, hbody, ?_⟩
          have hsetting : isSetting r = false := by
            revert hbody
            cases r <;> decide
          rw [Node.outermost_of_ne hsetting]
          exact Item.settings_ofNodes? parts (fun p hp => hn.of_mem hp) h
      · obtain ⟨b, hb, hbody, hsettings⟩ := Item.settings_ofBody? rest hrest h
        exact ⟨b, List.mem_cons_of_mem _ hb, hbody, hsettings⟩

theorem Item.settings_ofNodes? : ∀ (ns : List (Node Rule)) {items : List Item},
    (∀ n ∈ ns, grammar.Makes n) → Item.ofNodes? ns = some items →
    (Item.settings items).Sublist ((Node.outermostAll isSetting ns).map Node.param)
  | [], _, _, h => by
      obtain rfl := Option.some.inj h
      exact .slnil
  | n :: ns, items, hns, h => by
      obtain ⟨hn, hns⟩ := List.forall_mem_cons.mp hns
      simp only [Item.ofNodes?, bind, Option.bind_eq_some_iff, pure, Option.some.injEq] at h
      obtain ⟨item, hitem, items, hitems, rfl⟩ := h
      have happend := Item.settings_append [item] items
      rw [List.singleton_append] at happend
      rw [happend, Node.outermostAll, List.map_append]
      exact (Item.settings_ofNode? n hn hitem).append (Item.settings_ofNodes? ns hns hitems)

end

/-! ## Settings of sources -/

/-- The settings of a source, of all its commands and scopes in order, are what is written in
it at as many places one behind the other. -/
theorem Item.exists_assignments {source : String} {items : List Item}
    (h : Item.ofSource? source = some items) :
    ∃ as, Assigned as source.toList ∧ Item.settings items = as.map Assignment.param := by
  simp only [Item.ofSource?, bind, Option.bind_eq_some_iff] at h
  obtain ⟨node, hnode, hitems⟩ := h
  have hderives : grammar.Derives .loose (.rule .document) source.toList [node] :=
    Grammar.derives_whole? hnode
  have hmade : grammar.Makes node := hderives.makes node List.mem_cons_self
  obtain ⟨ns, -, hdocument⟩ := hderives.exists_of_rule
  obtain rfl := List.singleton_inj.mp hdocument
  -- the nodes of settings stand in the source, and those that are read are among them
  have hstands : Stands grammar (Node.outermostAll isSetting ns) source.toList [] := by
    unfold Grammar.whole? at hnode
    split at hnode
    · next taken node' hstart =>
        obtain rfl := Option.some.inj hnode
        have hstands := standsIn_start? consuming_bounds ranked_grammar isSetting hstart
        rwa [Match.StandsIn, Node.outermostAll, Node.outermostAll, List.append_nil,
          Node.outermost_of_ne rfl] at hstands
    · cases hnode
  have hread : (Item.settings items).Sublist ((Node.outermostAll isSetting ns).map Node.param) :=
    Item.settings_ofNodes? ns (fun p hp => hmade.of_mem hp) hitems
  obtain ⟨ms, hms, hparams⟩ := List.sublist_map_iff.mp hread
  have hrules : ∀ n ∈ ms, n.rule = .param := by
    intro n hn
    obtain ⟨r, t, parts⟩ := n
    have hsetting : isSetting r = true := Node.of_mem_outermostAll ns (hms.subset hn)
    exact eq_of_beq hsetting
  obtain ⟨as, has, hsame⟩ := exists_assigned (hstands.sublist hms) hrules
  exact ⟨as, has, hparams.trans hsame.symm⟩

/-- Whatever the settings of a source are, they are kept as they are written: in order, each
with its key, and each value unwrapped. -/
theorem Item.settings_as_written {source : String} {items : List Item}
    (h : Item.ofSource? source = some items) :
    ∃ as, Assigned as source.toList ∧ Item.settings items = as.map Assignment.param ∧
      ∀ key before after value, .valued key before after value ∈ as →
        Unwrapped value (Assignment.valued key before after value).param.value := by
  obtain ⟨as, has, hsettings⟩ := Item.exists_assignments h
  refine ⟨as, has, hsettings, ?_⟩
  intro key before after value hmem
  exact (has.isValue hmem).unwrapped

/-- A custom path with a bare setting and with one whose value is a group. -/
theorem Item.settings_as_written_custom :
    Item.ofSource? "\\pscustom[showpoints,dash=\x7b3 \x7b2\x7d\x7d ]\x7b\x7d"
        = some [.scope (.custom false [⟨"showpoints", ""⟩, ⟨"dash", "3 \x7b2\x7d"⟩]) []] ∧
      ∃ as, Assigned as "\\pscustom[showpoints,dash=\x7b3 \x7b2\x7d\x7d ]\x7b\x7d".toList ∧
        [⟨"showpoints", ""⟩, ⟨"dash", "3 \x7b2\x7d"⟩] = as.map Assignment.param ∧
        ∀ key before after value, .valued key before after value ∈ as →
          Unwrapped value (Assignment.valued key before after value).param.value := by
  have hsource : Item.ofSource? "\\pscustom[showpoints,dash=\x7b3 \x7b2\x7d\x7d ]\x7b\x7d"
      = some [.scope (.custom false [⟨"showpoints", ""⟩, ⟨"dash", "3 \x7b2\x7d"⟩]) []] := by
    cbv
  exact ⟨hsource, Item.settings_as_written hsource⟩

/-- Of two groups the first loses its opening brace and the second its closing one. -/
theorem Item.settings_two_groups :
    (Item.ofSource? "\\psset\x7bdash=\x7ba\x7d\x7bb\x7d\x7d").map Item.settings
        = some [⟨"dash", "a\x7d\x7bb"⟩] ∧
      Balanced "\x7ba\x7d\x7bb\x7d".toList ∧ ¬ Balanced "a\x7d\x7bb".toList := by
  refine ⟨by cbv, (balanced_iff _).mpr (by decide), ?_⟩
  rw [balanced_iff]
  decide

end PictureTree
