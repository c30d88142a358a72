/-
# `Proofs.Document.ShapeCommands` — shape commands as they are read

A gap may stand in front of every piece of a shape command, and what is read does not
depend on it: a source that starts with the pieces of a command, with blanks and
comments between them as it may be, is the command and the source behind it.

    the operands fill their slots       `Fills.takes`
    a command is an item                `Written.run_item`
    a command starts a source           `Written.ofSource?_eq`

Operands that may be absent are told by the character that is next, but for arrows,
which start with a brace as a number does.
-/
import PictureTree.Proofs.Document.Commands
import PictureTree.Proofs.Document.Operands

namespace PictureTree

open PictureTree.Expr Rule Trailer

/-! ## Slots -/

namespace Slot

/-- The rules of which an operand may be next. -/
def firsts : List Slot → List Rule
  | [] => []
  | .once r :: _ => [r]
  | .optional r :: slots | .many r :: slots => r :: firsts slots

/-- Whether the rule of an operand that is absent refuses what is next instead. -/
def told (r r' : Rule) : Bool :=
  Operand.opening r != Operand.opening r' || (decide (r = .arrows) && decide (r' = .argument))

/-- The rules of operands that may be absent. -/
def absents : List Slot → List Rule
  | [] => []
  | .once _ :: slots => absents slots
  | .optional r :: slots | .many r :: slots => r :: absents slots

/-- Whether every operand that may be absent is told from what may be next instead. -/
def apart : List Slot → Bool
  | [] => true
  | .once _ :: slots => apart slots
  | .optional r :: slots | .many r :: slots =>
    Operand.rules.contains r && (firsts slots).all (told r) && apart slots

end Slot

theorem ShapeCommand.apart_slots (c : ShapeCommand) : Slot.apart c.slots = true := by
  cases c <;> rfl

namespace Fills

variable {tail : List Char} {slots : List Slot} {o : Operand} {os : List Operand}

theorem eq_nil (h : Fills [] os) : os = [] := by
  cases h
  rfl

theorem rule_mem_firsts (h : Fills slots (o :: os)) : o.rule ∈ Slot.firsts slots := by
  generalize hcons : o :: os = os' at h
  induction h with
  | nil => cases hcons
  | once ho h _ | present ho h _ =>
      obtain ⟨rfl, -⟩ := List.cons.inj hcons
      rw [ho]
      exact List.mem_cons_self
  | absent h ih => exact List.mem_cons_of_mem _ (ih hcons)
  | @many r slots os os' hr h ih =>
      cases os with
      | nil => exact List.mem_cons_of_mem _ (ih hcons)
      | cons o' os =>
          obtain ⟨rfl, -⟩ := List.cons.inj hcons
          rw [hr o List.mem_cons_self]
          exact List.mem_cons_self

theorem exists_of_once {r : Rule} (h : Fills slots os) (hr : .once r ∈ slots) :
    ∃ o ∈ os, o.rule = r := by
  induction h with
  | nil => cases hr
  | once ho h ih =>
      rcases List.mem_cons.mp hr with hr | hr
      · obtain rfl := Slot.once.inj hr
        exact ⟨_, List.mem_cons_self, ho⟩
      · obtain ⟨o, ho, hrule⟩ := ih hr
        exact ⟨o, List.mem_cons_of_mem _ ho, hrule⟩
  | absent h ih => exact ih ((List.mem_cons.mp hr).resolve_left nofun)
  | present ho h ih =>
      obtain ⟨o, ho, hrule⟩ := ih ((List.mem_cons.mp hr).resolve_left nofun)
      exact ⟨o, List.mem_cons_of_mem _ ho, hrule⟩
  | many hsame h ih =>
      obtain ⟨o, ho, hrule⟩ := ih ((List.mem_cons.mp hr).resolve_left nofun)
      exact ⟨o, List.mem_append_right _ ho, hrule⟩

end Fills

/-! ## Operands in their slots -/

section Behind

variable {tail : List Char} {slots : List Slot} {r : Rule} {os : List Operand}
  {ps qs : List (List Char)} {P Q : List (Node Rule) → Prop}

/-- An operand that is absent is refused. -/
theorem Fills.refuses (hfills : Fills slots os) (hr : r ∈ Operand.rules)
    (htold : (Slot.firsts slots).all (Slot.told r) = true)
    (htail : next tail [] ≠ some (Operand.opening r)) :
    Refuses tail (.rule r) (Operand.pieces os) := by
  cases os with
  | nil => exact Operand.refuses_of_opening hr htail
  | cons o os =>
      have ho := List.all_eq_true.mp htold o.rule hfills.rule_mem_firsts
      rw [Slot.told, Bool.or_eq_true, Bool.and_eq_true, decide_eq_true_eq, decide_eq_true_eq] at ho
      rcases ho with hne | ⟨rfl, hrule⟩
      · refine Operand.refuses_of_opening hr ?_
        have hnext : next tail (Operand.pieces (o :: os)) = some (Operand.opening o.rule) :=
          o.next_before
        rw [hnext]
        intro h
        exact absurd (Option.some.inj h).symm (by simpa using hne)
      · cases o with
        | argument m => exact Operand.refuses_arrows m
        | _ => cases hrule

theorem left_rule : ∀ r ∈ Operand.rules, (Region.empty consuming).left (Expr.rule r) = true := by
  decide

/-- Operands of one rule, as many as there are. -/
theorem takesMany_of_rule (hr : r ∈ Operand.rules) (hos : ∀ o ∈ os, o.rule = r)
    (hno : Refuses tail (.rule r) ps) :
    TakesMany tail (.rule r) (os.foldr (fun o ps => o.before ps) ps) ps
      (List.Forall₂ Operand.Of os) := by
  induction os with
  | nil =>
      intro s hs
      obtain ⟨hrest, hnodes⟩ := hno.many s hs
      exact ⟨hrest, hnodes ▸ .nil⟩
  | cons o os ih =>
      have hmore := ih fun o' ho' => hos o' (List.mem_cons_of_mem _ ho')
      have hone : Takes tail (.rule o.rule) ((o :: os).foldr (fun o ps => o.before ps) ps)
          (os.foldr (fun o ps => o.before ps) ps) _ :=
        o.takes
      rw [hos o List.mem_cons_self] at hone
      intro s hs
      obtain ⟨hrest, xs, ys, hnodes, ⟨n, rfl, hn⟩, hys⟩ :=
        TakesMany.more (left_rule r hr) hone hmore s hs
      exact ⟨hrest, hnodes ▸ .cons hn hys⟩

theorem Takes.seqs_cons {e : Expr Rule} {es : List (Expr Rule)} (ha : Takes tail e ps qs P)
    (hb : Takes tail (seqs es) qs [] Q) (hnil : es = [] → qs = [] ∧ Q []) :
    Takes tail (seqs (e :: es)) ps [] (Both P Q) := by
  cases es with
  | cons e' es => exact ha.seq hb
  | nil =>
      obtain ⟨rfl, hQ⟩ := hnil rfl
      refine ha.mono ?_
      intro ns hns
      exact ⟨ns, [], (List.append_nil ns).symm, hns, hQ⟩

theorem Fills.nothing_behind (hfills : Fills slots os) (hslots : slots.map Slot.expr = []) :
    Operand.pieces os = [] ∧ List.Forall₂ Operand.Of os [] := by
  obtain rfl := List.map_eq_nil_iff.mp hslots
  obtain rfl := hfills.eq_nil
  exact ⟨rfl, .nil⟩

/-- Operands in their slots are taken, one after the other. -/
theorem Fills.takes (hfills : Fills slots os) (hapart : Slot.apart slots = true)
    (htail : ∀ r ∈ Slot.absents slots, next tail [] ≠ some (Operand.opening r)) :
    Takes tail (seqs (slots.map Slot.expr)) (Operand.pieces os) []
      (List.Forall₂ Operand.Of os) := by
  induction hfills with
  | nil =>
      intro s hs
      exact ⟨_, run_lit_append [] _, hs.rest_gap, .nil⟩
  | @once _ o slots os ho h ih =>
      subst ho
      have hone : Takes tail (.rule o.rule) (Operand.pieces (o :: os)) (Operand.pieces os) _ :=
        o.takes
      refine (hone.seqs_cons (ih hapart htail) h.nothing_behind).mono ?_
      rintro ns ⟨_, ys, rfl, ⟨n, rfl, hn⟩, hys⟩
      exact .cons hn hys
  | @absent r slots os h ih =>
      have hbehind := fun r' hr' => htail r' (List.mem_cons_of_mem _ hr')
      simp only [Slot.apart, Bool.and_eq_true, List.contains_iff_mem] at hapart
      have hno : Refuses tail (.rule r) (Operand.pieces os) :=
        h.refuses hapart.1.1 hapart.1.2 (htail r List.mem_cons_self)
      refine (hno.opt.seqs_cons (ih hapart.2 hbehind) h.nothing_behind).mono ?_
      rintro ns ⟨_, ys, rfl, rfl, hys⟩
      exact hys
  | @present _ o slots os ho h ih =>
      subst ho
      have hbehind := fun r' hr' => htail r' (List.mem_cons_of_mem _ hr')
      simp only [Slot.apart, Bool.and_eq_true] at hapart
      have hone : Takes tail (.rule o.rule) (Operand.pieces (o :: os)) (Operand.pieces os) _ :=
        o.takes
      refine (hone.opt.seqs_cons (ih hapart.2 hbehind) h.nothing_behind).mono ?_
      rintro ns ⟨_, ys, rfl, ⟨n, rfl, hn⟩, hys⟩
      exact .cons hn hys
  | @many r slots os os' hr h ih =>
      have hbehind := fun r' hr' => htail r' (List.mem_cons_of_mem _ hr')
      simp only [Slot.apart, Bool.and_eq_true, List.contains_iff_mem] at hapart
      have hno : Refuses tail (.rule r) (Operand.pieces os') :=
        h.refuses hapart.1.1 hapart.1.2 (htail r List.mem_cons_self)
      have hmany : Takes tail (.star (.rule r)) (Operand.pieces (os ++ os')) (Operand.pieces os')
          (List.Forall₂ Operand.Of os) := by
        rw [Operand.pieces, List.foldr_append]
        exact (takesMany_of_rule hapart.1.1 hr hno).star (left_rule r hapart.1.1)
      refine (hmany.seqs_cons (ih hapart.2 hbehind) h.nothing_behind).mono ?_
      rintro ns ⟨xs, ys, rfl, hxs, hys⟩
      exact List.rel_append hxs hys

/-! ## Names -/

/-- Where no letter is next, a text does not start with one. -/
theorem Ahead.stops_letter {t : List Char} (h : Ahead tail ps t)
    (hnext : ∀ c ∈ next tail ps, c.isAlpha = false) : Stops .letter t := by
  intro c hc
  rcases h.head? hc with hsolid | hc
  · refine Bool.eq_false_iff.mpr ?_
    intro hletter
    rw [isSolid_of_isAlpha hletter] at hsolid
    cases hsolid
  · exact hnext c hc

/-- A name that is a token of its own is taken if no letter is next. -/
theorem takes_nameRule {e : Expr Rule} {w : List Char} (hr : r.kind = .token)
    (hbody : expr r = .seq e (.notAhead (.one .letter)))
    (he : ∀ t, Stops .letter t → Eats e w t)
    (hnext : ∀ c ∈ next tail ps, c.isAlpha = false) :
    Takes tail (.rule r) (w :: ps) ps (· = [.mk r w []]) := by
  refine takes_piece ?_
  intro t ht
  have hstop : Stops .letter t := ht.stops_letter hnext
  have hahead : Eats (.notAhead (.one .letter)) [] t := by
    refine ⟨[], ?_⟩
    rw [List.nil_append, Expr.run, hstop.run_one .tight]
    rfl
  have hname : Eats (expr r) w t := by
    rw [hbody]
    have h := (he ([] ++ t) hstop).seq hahead
    rwa [List.append_nil] at h
  exact ⟨_, hname.start? hr, rfl, rfl⟩

end Behind

namespace ShapeCommand

variable {tail : List Char} {ps : List (List Char)}

/-- The nodes of the name of a shape command. -/
def nameNodes : ShapeCommand → List (Node Rule)
  | .arc clockwise => [.mk .arcName (ShapeCommand.arc clockwise).name.toList []]
  | .curve kind => [.mk .curveName (ShapeCommand.curve kind).name.toList []]
  | _ => []

theorem takes_head (c : ShapeCommand) (hnext : ∀ d ∈ next tail ps, d.isAlpha = false) :
    Takes tail c.head (c.name.toList :: ps) ps (· = c.nameNodes) := by
  cases c with
  | arc clockwise =>
      refine takes_nameRule rfl rfl ?_ hnext
      intro t ht
      cases clockwise with
      | true => exact (eats_lit _ t).alt
      | false =>
          refine .alt_right ?_ (eats_lit _ t)
          cases t with
          | nil => rfl
          | cons d t =>
              have hd : d ≠ 'n' := by
                rintro rfl
                exact absurd (ht 'n' rfl) (by decide)
              simp [Expr.word, Expr.run, Text.after?, name, Ne.symm hd]
  | curve kind =>
      refine takes_nameRule rfl rfl ?_ hnext
      intro t _
      cases kind with
      | «open» => exact .alt_right rfl (.alt_right rfl (eats_lit _ t))
      | closed => exact .alt_right rfl (eats_lit _ t).alt
      | ends => exact (eats_lit _ t).alt
  | _ => exact takes_name hnext

/-- All shape commands, but for the functions of plots. -/
def all : List ShapeCommand :=
  [.frame, .diamond, .triangle, .ellipse, .circle, .disk, .wedge, .arc true, .arc false, .line,
   .segment, .polygon, .bezier, .dot, .dots, .grid, .axes, .plot "", .curve .open,
   .curve .closed, .curve .ends]

/-- A fact about rules and their names is a fact about these commands. -/
theorem forall_of_all {P : Rule → String → Prop} (h : ∀ c ∈ all, P c.rule c.name)
    (c : ShapeCommand) : P c.rule c.name := by
  cases c with
  | arc clockwise => cases clockwise <;> exact h _ (by decide)
  | curve kind => cases kind <;> exact h _ (by decide)
  | plot f => exact h (.plot "") (by decide)
  | _ => exact h _ (by decide)

theorem rule_mem_commands (c : ShapeCommand) : c.rule ∈ commands :=
  forall_of_all (P := fun r _ => r ∈ commands) (by decide) c

theorem kind_rule (c : ShapeCommand) : c.rule.kind = .phrase :=
  forall_of_all (P := fun r _ => r.kind = .phrase) (by decide) c

theorem isName (c : ShapeCommand) : IsName c.name.toList where
  backslash := forall_of_all (P := fun _ w => w.toList.head? = some '\\') (by decide) c
  letters := List.all_eq_true.mp
    (forall_of_all (P := fun _ w => w.toList.tail.all Char.isAlpha = true) (by decide) c)
  ne_backslash := forall_of_all (P := fun _ w => w.toList.tail ≠ []) (by decide) c

/-- No other command has the name of a shape command. -/
theorem hasName_name (c : ShapeCommand) : c.rule.hasName c.name.toList = true :=
  forall_of_all (P := fun r w => r.hasName w.toList = true) (by decide +kernel) c

end ShapeCommand

/-! ## Written commands -/

namespace Written

variable {tail : List Char} (w : Written)

/-- What is behind a command does not go on with it: no letter with its name, and no character
with an operand that it may have. -/
structure Ends (tail : List Char) : Prop where
  noLetter : w.operands = [] → ∀ c ∈ next tail [], c.isAlpha = false
  noOperand : ∀ r ∈ Slot.absents w.named.slots, next tail [] ≠ some (Operand.opening r)

variable {w}

/-- No letter is next behind the name of a command. -/
theorem Ends.next_operands (h : w.Ends tail) :
    ∀ c ∈ next tail (Operand.pieces w.operands), c.isAlpha = false := by
  intro c hc
  cases hos : w.operands with
  | nil =>
      rw [hos] at hc
      exact h.noLetter hos c hc
  | cons o os =>
      have hopening : next tail (Operand.pieces (o :: os)) = some (Operand.opening o.rule) :=
        o.next_before
      rw [hos, hopening] at hc
      obtain rfl := Option.some.inj hc
      cases o <;> rfl

variable (w)

theorem takes (htail : w.Ends tail) : Takes tail (.rule w.named.rule) w.pieces []
    fun ns => ∃ t ms, ns = [.mk w.named.rule t (w.named.nameNodes ++ ms)] ∧
      List.Forall₂ Operand.Of w.operands ms := by
  have hphrase := w.named.kind_rule
  have hspacing : w.named.rule.kind.spacing = .loose := by
    rw [hphrase]
    rfl
  have hnext := htail.next_operands
  have hbody : Takes tail (expr w.named.rule) w.pieces []
      (Both (· = w.named.nameNodes) (List.Forall₂ Operand.Of w.operands)) := by
    rw [w.named.expr_rule]
    exact (w.named.takes_head hnext).seqs_cons (w.fills.takes w.named.apart_slots htail.noOperand)
      w.fills.nothing_behind
  refine (hbody.rule hspacing).mono ?_
  rintro ns ⟨t, parts, rfl, _, ms, rfl, rfl, hms⟩
  exact ⟨t, ms, by rw [hphrase]; rfl, hms⟩

/-- The function of a plot is the text of its operand in braces without a number. -/
theorem bracedText?_of_plot {f : String} {ms : List (Node Rule)} (hplot : w.named = .plot f)
    (hms : List.Forall₂ Operand.Of w.operands ms) (t : List Char) :
    (Node.mk .plot t ms).bracedText?
      = some ((w.operands.findSome? Operand.function?).getD "") := by
  have hfind : (ms.find? fun n => n.rule = .bracedText).map
      (fun n => Text.trimmed (Text.unbrace n.text)) = w.operands.findSome? Operand.function? := by
    refine Operand.find?_of_forall₂ hms ?_
    rintro o n ⟨-, hn⟩
    cases o with
    | function t ht =>
        have hn : n.text = '{' :: (t ++ ['}']) := hn
        have hunbrace : Text.unbrace ('{' :: (t ++ ['}'])) = t := by simp [Text.unbrace]
        simp [Operand.function?, Operand.rule, hn, hunbrace]
    | _ => rfl
  have hslot : .once .bracedText ∈ w.named.slots := by
    rw [hplot]
    simp [ShapeCommand.slots]
  obtain ⟨o, ho, hrule⟩ := w.fills.exists_of_once hslot
  have hsome : (w.operands.findSome? Operand.function?).isSome = true := by
    refine List.findSome?_isSome_iff.mpr ⟨o, ho, ?_⟩
    cases o with
    | function t ht => rfl
    | _ => cases hrule
  obtain ⟨f, hf⟩ := Option.isSome_iff_exists.mp hsome
  rw [hf] at hfind
  rw [hf, Node.bracedText?, Node.text?, Node.first?, Node.parts, Option.map_map]
  exact hfind

/-- The node of a written command is read as the command. -/
theorem ofNodes?_eq {ms : List (Node Rule)} (hms : List.Forall₂ Operand.Of w.operands ms)
    (t : List Char) :
    Item.ofNodes? [.mk w.named.rule t (w.named.nameNodes ++ ms)]
      = some [.command (.shape w.command w.arguments)] := by
  have hnames : ∀ n ∈ w.named.nameNodes, n.rule ∉ Operand.rules := by
    intro n hn
    cases hc : w.named with
    | arc | curve =>
        rw [hc] at hn
        obtain rfl := List.mem_singleton.mp hn
        simp [Node.rule, Operand.rules]
    | _ =>
        rw [hc] at hn
        cases hn
  have harguments := Operand.arguments?_of_forall₂ hms hnames w.named.rule t
  have hshape : (Node.mk w.named.rule t (w.named.nameNodes ++ ms)).shapeCommand?
      = some w.command := by
    rw [command]
    cases hc : w.named with
    | arc clockwise => cases clockwise <;> rfl
    | curve kind => cases kind <;> rfl
    | plot f =>
        have hfunction := w.bracedText?_of_plot hc hms t
        exact congrArg (Option.map ShapeCommand.plot) hfunction
    | _ => rfl
  have hcommand : ∀ n : Node Rule, n.rule = w.named.rule →
      n.command? = do return .shape (← n.shapeCommand?) (← n.arguments?) := by
    rintro ⟨r, t, parts⟩ hrule
    obtain rfl : r = w.named.rule := hrule
    cases w.named <;> rfl
  have hcommand := hcommand (.mk w.named.rule t (w.named.nameNodes ++ ms)) rfl
  have hscope : Node.isScope w.named.rule = false :=
    ShapeCommand.forall_of_all (P := fun r _ => Node.isScope r = false) (by decide) w.named
  simp [Item.ofNodes?, Item.ofNode?, hscope, hcommand, hshape, harguments, arguments]

/-- Where the pieces of a command are next, there is this item, and behind it the tail. -/
theorem run_item {s : List Char} (hs : Ahead tail w.pieces s) (htail : w.Ends tail) :
    ∃ m, item.run grammar.start? .loose (gap .loose s : Match Rule).rest = some m ∧
      Ahead tail [] m.rest ∧
      Item.ofNodes? m.nodes = some [.command (.shape w.command w.arguments)] := by
  obtain ⟨m, hm, hrest, t, ms, hnodes, hms⟩ := w.takes htail s hs
  have hm : grammar.start? w.named.rule (gap .loose s : Match Rule).rest = some m := hm
  obtain ⟨behind, hgap, hbehind⟩ := hs.exists_gap
  have hletter : Stops .letter behind := hbehind.stops_letter htail.next_operands
  have hitem : item.run grammar.start? .loose (w.named.name.toList ++ behind) = _ :=
    run_item_of_name w.named.isName hletter w.named.rule_mem_commands w.named.hasName_name
  refine ⟨m, ?_, hrest, hnodes ▸ w.ofNodes?_eq hms t⟩
  rw [hgap] at hm ⊢
  rw [hitem, hm]
  rfl

end Written

/-! ## Sources -/

/-- Blanks and comments in front of a source are not seen. -/
theorem ofSource?_eq_of_gap {source source' : String}
    (h : (gap .loose source.toList : Match Rule).rest
      = (gap .loose source'.toList : Match Rule).rest) :
    Item.ofSource? source = Item.ofSource? source' := by
  rw [ofSource?_eq_itemsOf, ofSource?_eq_itemsOf]
  cases hm : item.run grammar.start? .loose (gap .loose source.toList : Match Rule).rest with
  | none =>
      have hm' := hm
      rw [h] at hm'
      rw [itemsOf_of_none hm, itemsOf_of_none hm', Match.rest_nothing, Match.rest_nothing, h]
      rfl
  | some m =>
      have hm' := hm
      rw [h] at hm'
      rw [itemsOf_of_some hm, itemsOf_of_some hm']
      simp only [Match.rest_append, Match.nodes_append, nodes_gap]

/-- A source that starts with the pieces of a command is this command, and the source behind it. -/
theorem Written.ofSource?_eq (w : Written) {source tail : String}
    (hs : Ahead tail.toList w.pieces source.toList) (htail : w.Ends tail.toList) :
    Item.ofSource? source
      = (Item.ofSource? tail).map ([.command (.shape w.command w.arguments)] ++ ·) := by
  obtain ⟨m, hm, hrest, hitems⟩ := w.run_item hs htail
  have hsource : Item.ofSource? source = (Item.ofSource? (String.ofList m.rest)).map
      ([.command (.shape w.command w.arguments)] ++ ·) :=
    ofSource?_of_item hm (String.toList_ofList).symm hitems
  have hbehind : Item.ofSource? (String.ofList m.rest) = Item.ofSource? tail :=
    ofSource?_eq_of_gap (by rw [String.toList_ofList]; exact hrest.gap_nil)
  rw [hsource, hbehind]

end PictureTree
