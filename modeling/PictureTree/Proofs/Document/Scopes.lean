/-
# `Proofs.Document.Scopes` — a scope around its body

Five rules make scopes, one of them in two forms.  A form is what stands in front of the
body, the body, and what stands behind it (`ScopeForm`).  Each rule that has a body is the
choice of its forms, so there are no others (`expr_of_body_mem_calls`).  What is in front decides which form it is, so whatever the
body is, a text that opens a form, a body and the end of the form are read as a scope with
the items of the body (`ScopeForm.ofSource?_eq`).
-/
import PictureTree.Proofs.Document.ShapeCommands

namespace PictureTree

open PictureTree.Expr Rule Trailer

/-! ## Forms -/

/-- A form of a scope: the rule, what is in front of the body and behind it, and the end as
it may be written. -/
structure ScopeForm where
  rule : Rule
  opening : List (Expr Rule)
  body : Rule
  closing : List (Expr Rule)
  ending : List Char

/-- The whole of a form. -/
def ScopeForm.whole (f : ScopeForm) : Expr Rule :=
  seqs (f.opening ++ .rule f.body :: f.closing)

/-- All forms of scopes. -/
def scopeForms : List ScopeForm := [
  { rule := .picture
    opening := [word "\\begin", word "\x7b", word "pspicture", star?, word "\x7d", params?, coord?,
      coord?]
    body := .body
    closing := [word "\\end", word "\x7b", word "pspicture", .opt (word "*"), word "\x7d"]
    ending := "\\end\x7bpspicture\x7d".toList },
  { rule := .picture
    opening := [Expr.name "\\pspicture", star?, params?, coord?, coord?]
    body := .body
    closing := [Expr.name "\\endpspicture"]
    ending := "\\endpspicture".toList },
  { rule := .block
    opening := [word "\x7b"]
    body := .body
    closing := [word "\x7d"]
    ending := "\x7d".toList },
  { rule := .custom
    opening := [Expr.name "\\pscustom", star?, params?, word "\x7b"]
    body := .customBody
    closing := [word "\x7d"]
    ending := "\x7d".toList },
  { rule := .place
    opening := [Expr.name "\\rput", star?, .opt (.rule .refPoint), .opt (.rule .placeAngle),
      .rule .coord, word "\x7b"]
    body := .body
    closing := [word "\x7d"]
    ending := "\x7d".toList },
  { rule := .turn
    opening := [Expr.name "\\psrotate", params?, .rule .coord, .rule .argument, word "\x7b"]
    body := .body
    closing := [word "\x7d"]
    ending := "\x7d".toList }]

/-- The rule of a scope is the choice of its forms. -/
theorem expr_of_isScope {r : Rule} (hr : Node.isScope r = true) :
    expr r = alts ((scopeForms.filter fun f => f.rule = r).map ScopeForm.whole) := by
  cases r <;> first | rfl | cases hr

/-- No other rule has a body. -/
theorem isScope_of_body_mem_calls :
    ∀ r, (∃ b ∈ (expr r).calls, Node.isBody b = true) → Node.isScope r = true := by
  intro r
  cases r <;> decide

/-- A rule that has a body is the choice of its forms. -/
theorem expr_of_body_mem_calls {r : Rule} (h : ∃ b ∈ (expr r).calls, Node.isBody b = true) :
    expr r = alts ((scopeForms.filter fun f => f.rule = r).map ScopeForm.whole) :=
  expr_of_isScope (isScope_of_body_mem_calls r h)

section Choice

variable {s : List Char} {m : Match Rule}

/-- What an expression with one opening matches starts with it. -/
theorem Opening.fits_of_run {e : Expr Rule} {o : Opening} {sp : Spacing}
    (he : e.openings (fun _ => none) = some [o]) (h : e.run grammar.start? sp s = some m) :
    o.Fits s := by
  obtain ⟨o', ho', hfits⟩ := Expr.exists_opening_of_run (fun hr _ => by cases hr) he h
  rwa [List.mem_singleton.mp ho'] at hfits

/-- A phrase is what its expression matches. -/
theorem start?_of_phrase {r : Rule} (hr : r.kind = .phrase)
    (h : (expr r).run grammar.start? .loose s = some m) :
    grammar.start? r s = some (m.wrap r.kind r) := by
  have hspacing : r.kind.spacing = .loose := by rw [hr]; rfl
  rw [start?_eq_run, hspacing, h]
  rfl

/-- The scopes that start with a name of their own. -/
def namedScopes : List (Rule × String) :=
  [(.custom, "\\pscustom"), (.place, "\\rput"), (.turn, "\\psrotate")]

theorem isName_of_mem_namedScopes : ∀ p ∈ namedScopes, IsName p.2.toList ∧ p.1 ∈ commands ∧
    p.1.hasName p.2.toList = true := by
  have hnames : ∀ p ∈ namedScopes, p.2.toList.head? = some '\\' ∧
      p.2.toList.tail.all Char.isAlpha = true ∧ p.2.toList.tail ≠ [] := by
    decide
  have hcommands : ∀ p ∈ namedScopes, p.1 ∈ commands ∧ p.1.hasName p.2.toList = true := by
    decide +kernel
  intro p hp
  obtain ⟨hbackslash, hletters, hne⟩ := hnames p hp
  exact ⟨⟨hbackslash, List.all_eq_true.mp hletters, hne⟩, hcommands p hp⟩

/-- A scope that starts with its name is the item there. -/
theorem run_item_of_namedScope {r : Rule} {w : String} {n : Match Rule} (hr : (r, w) ∈ namedScopes)
    (hs : Opening.Fits ⟨w.toList, true⟩ s) (h : grammar.start? r s = some n) :
    item.run grammar.start? .loose s = some n := by
  obtain ⟨hw, hcommand, hname⟩ := isName_of_mem_namedScopes _ hr
  obtain ⟨u, rfl, hu⟩ := hs
  rw [run_item_of_name hw (hu rfl) hcommand hname, h]
  rfl

namespace ScopeForm

variable {f : ScopeForm}

theorem kind_rule : ∀ f ∈ scopeForms, f.rule.kind = .phrase ∧ Node.isScope f.rule = true := by
  decide

/-- The form that a text opens is its first item. -/
theorem run_item (hf : f ∈ scopeForms) (h : f.whole.run grammar.start? .loose s = some m) :
    item.run grammar.start? .loose s = some (m.wrap f.rule.kind f.rule) := by
  have hphrase {r : Rule} := start?_of_phrase (r := r) (s := s) (m := m)
  simp only [scopeForms, List.mem_cons, List.not_mem_nil, or_false] at hf
  rcases hf with rfl | rfl | rfl | rfl | rfl | rfl
  · exact run_alt_of_some (hphrase rfl (run_alt_of_some h))
  · obtain ⟨u, rfl, -⟩ := Opening.fits_of_run rfl h
    exact run_alt_of_some (hphrase rfl ((run_alt_of_none (run_seq_of_none rfl)).trans h))
  · obtain ⟨u, rfl, -⟩ := Opening.fits_of_run rfl h
    exact (run_item_opening u).trans (hphrase rfl h)
  · exact run_item_of_namedScope (r := .custom) (by decide) (Opening.fits_of_run rfl h)
      (hphrase rfl h)
  · exact run_item_of_namedScope (r := .place) (by decide) (Opening.fits_of_run rfl h)
      (hphrase rfl h)
  · exact run_item_of_namedScope (r := .turn) (by decide) (Opening.fits_of_run rfl h)
      (hphrase rfl h)

/-- Nothing is skipped in front of a form. -/
theorem gap_of_run_whole (hf : f ∈ scopeForms)
    (h : f.whole.run grammar.start? .loose s = some m) :
    (gap .loose s : Match Rule) = .nothing s := by
  have hsolid : ∀ f ∈ scopeForms, (f.whole.openings fun _ => none).any
      (fun os => os.all fun o => o.text.head?.any isSolid) = true := by
    decide
  obtain ⟨os, hos, hall⟩ := (Option.any_eq_true _ _).mp (hsolid f hf)
  obtain ⟨o, ho, u, rfl, -⟩ := Expr.exists_opening_of_run (fun hr _ => by cases hr) hos h
  obtain ⟨c, hc, hcsolid⟩ := (Option.any_eq_true _ _).mp (List.all_eq_true.mp hall o ho)
  obtain ⟨t, ht⟩ := List.head?_eq_some_iff.mp hc
  rw [ht]
  exact gap_of_isSolid hcsolid .loose _

/-! ## Around a body -/

/-- A text opens a form in front of a body if it is what stands there. -/
def Opens (f : ScopeForm) (o b : List Char) : Prop :=
  ((seqs f.opening).run grammar.start? .loose (o ++ (b ++ f.ending))).map Match.rest
    = some (b ++ f.ending)

instance (f : ScopeForm) (o b : List Char) : Decidable (f.Opens o b) :=
  inferInstanceAs (Decidable (_ = _))

/-- A body with one item ends where no other item is next. -/
theorem start?_body_of_item {r : Rule} {e : Expr Rule} (hr : r.kind = .phrase)
    (hbody : expr r = .star e) {t s : List Char} {ns : List (Node Rule)}
    (he : e.run grammar.start? .loose (t ++ s) = some ⟨t, s, ns⟩)
    (hend : e.run grammar.start? .loose (gap .loose s : Match Rule).rest = none) :
    grammar.start? r (t ++ s) = some ⟨t, s, [.mk r t ns]⟩ := by
  have hrun : (expr r).run grammar.start? .loose (t ++ s) = some ⟨t, s, ns⟩ := by
    rw [hbody, run_star_of_some he, repetitions_of_none hend]
    show some (Match.mk (t ++ []) s (ns ++ [])) = _
    rw [List.append_nil, List.append_nil]
  rw [start?_of_phrase hr hrun, hr]
  rfl

/-- A body repeats one of two items, and none of it starts where the form ends. -/
theorem exists_item (hf : f ∈ scopeForms) : ∃ e ∈ [item, customItem],
    f.body.kind = .phrase ∧ expr f.body = .star e ∧
      e.run grammar.start? .loose (gap .loose f.ending : Match Rule).rest = none := by
  have hitem : item ∈ [item, customItem] := List.mem_cons_self
  have hcustom : customItem ∈ [item, customItem] := by simp
  simp only [scopeForms, List.mem_cons, List.not_mem_nil, or_false] at hf
  rcases hf with rfl | rfl | rfl | rfl | rfl | rfl
  · exact ⟨item, hitem, rfl, rfl, by cbv⟩
  · exact ⟨item, hitem, rfl, rfl, by cbv⟩
  · exact ⟨item, hitem, rfl, rfl, by cbv⟩
  · exact ⟨customItem, hcustom, rfl, rfl, by cbv⟩
  · exact ⟨item, hitem, rfl, rfl, by cbv⟩
  · exact ⟨item, hitem, rfl, rfl, by cbv⟩

theorem run_closing (hf : f ∈ scopeForms) :
    (seqs f.closing).run grammar.start? .loose (gap .loose f.ending : Match Rule).rest
      = some ⟨f.ending, [], []⟩ := by
  simp only [scopeForms, List.mem_cons, List.not_mem_nil, or_false] at hf
  rcases hf with rfl | rfl | rfl | rfl | rfl | rfl <;> rfl

/-- A form around a body is taken to its end, and the first body among its nodes is this. -/
theorem run_whole (hf : f ∈ scopeForms) {o b : List Char} {n : Node Rule} (ho : f.Opens o b)
    (hb : b.head?.any isSolid = true)
    (hbody : grammar.start? f.body (b ++ f.ending) = some ⟨b, f.ending, [n]⟩) :
    ∃ m ns, f.whole.run grammar.start? .loose (o ++ (b ++ f.ending)) = some m ∧ m.rest = [] ∧
      m.nodes = ns ++ [n] ∧ ∀ n' ∈ ns, Node.isBody n'.rule = false := by
  have hparts : ∀ f ∈ scopeForms, f.opening ≠ [] ∧ f.closing ≠ [] ∧
      ∀ r ∈ (seqs f.opening).calls, Node.isBody r = false := by
    decide
  obtain ⟨hopening, hclosing, hcalls⟩ := hparts f hf
  obtain ⟨k, hk, hrest⟩ := Option.map_eq_some_iff.mp ho
  have hgap : (gap .loose k.rest : Match Rule).rest = b ++ f.ending := by
    obtain ⟨c, hc, hsolid⟩ := (Option.any_eq_true _ _).mp hb
    obtain ⟨t, rfl⟩ := List.head?_eq_some_iff.mp hc
    rw [hrest, List.cons_append, gap_of_isSolid hsolid]
    rfl
  have hbehind : (seqs (.rule f.body :: f.closing)).run grammar.start? .loose (b ++ f.ending)
      = some (join .loose ⟨b, f.ending, [n]⟩ ⟨f.ending, [], []⟩) := by
    obtain ⟨e, es, hes⟩ := List.exists_cons_of_ne_nil hclosing
    have hend := run_closing hf
    rw [hes] at hend ⊢
    exact run_seq_join (a := .rule f.body) hbody hend
  have hwhole := run_seqs_append hopening (List.cons_ne_nil (.rule f.body) f.closing) hk
  rw [hgap, hbehind] at hwhole
  refine ⟨_, k.nodes, hwhole, rfl, ?_, ?_⟩
  · simp [join, nodes_gap]
  · intro n' hn'
    exact hcalls _ ((Grammar.derives_run_start? hk).rule_mem_calls n' hn')

theorem ofBody?_append {ns : List (Node Rule)} {r : Rule} {t : List Char}
    {parts : List (Node Rule)} (hns : ∀ n ∈ ns, Node.isBody n.rule = false)
    (hr : Node.isBody r = true) :
    Item.ofBody? (ns ++ [.mk r t parts]) = Item.ofNodes? parts := by
  induction ns with
  | nil => rw [List.nil_append, Item.ofBody?, if_pos hr]
  | cons n ns ih =>
      obtain ⟨r', t', parts'⟩ := n
      obtain ⟨hn, hns⟩ := List.forall_mem_cons.mp hns
      have hn : Node.isBody r' = false := hn
      rw [List.cons_append, Item.ofBody?, if_neg (by simp [hn])]
      exact ih hns

/-- **A body in a scope**: a source that opens a form, goes on with a body and ends the form
is a scope with the items of the body. -/
theorem ofSource?_eq (hf : f ∈ scopeForms) {o b : List Char} {ns : List (Node Rule)}
    {items : List Item} (ho : f.Opens o b) (hb : b.head?.any isSolid = true)
    (hbody : grammar.start? f.body (b ++ f.ending) = some ⟨b, f.ending, [.mk f.body b ns]⟩)
    (hitems : Item.ofNodes? ns = some items) :
    ∃ head, Item.ofSource? (String.ofList (o ++ (b ++ f.ending))) = some [.scope head items] := by
  obtain ⟨m, ns', hm, hrest, hnodes, hns'⟩ := run_whole hf ho hb hbody
  obtain ⟨hkind, hscope⟩ := kind_rule f hf
  have hbodies : ∀ f ∈ scopeForms, Node.isBody f.body = true := by decide
  have hitem := run_item hf hm
  have hwrap : (m.wrap f.rule.kind f.rule).nodes = [.mk f.rule m.taken m.nodes] := by
    rw [Match.nodes_wrap, hkind]
    rfl
  have hmakes : grammar.Makes (.mk f.rule m.taken m.nodes) :=
    (Grammar.derives_run_start? hitem).makes _ (by rw [hwrap]; exact List.mem_cons_self)
  obtain ⟨head, hhead⟩ := Node.exists_scopeHead? hmakes hscope
  have hscope : Item.ofNodes? (m.wrap f.rule.kind f.rule).nodes = some [.scope head items] := by
    rw [hwrap, Item.ofNodes?, Item.ofNode?, if_pos hscope, hhead, hnodes,
      ofBody?_append hns' (hbodies f hf), hitems]
    rfl
  have hitem' : item.run grammar.start? .loose
      (gap .loose (String.ofList (o ++ (b ++ f.ending))).toList : Match Rule).rest
        = some (m.wrap f.rule.kind f.rule) := by
    rw [String.toList_ofList, gap_of_run_whole hf hm]
    exact hitem
  have hend : (m.wrap f.rule.kind f.rule).rest = "".toList := hrest
  refine ⟨head, ?_⟩
  rw [ofSource?_of_item hitem' hend hscope, ofSource?_empty]
  rfl

end ScopeForm

end Choice

end PictureTree
