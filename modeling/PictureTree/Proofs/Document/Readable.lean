/-
# `Proofs.Document.Readable` — what the grammar matches can be read

Reading a node fails if a part is missing, if there are too many or too few
parts, or if the text of a part is not the number, the unit or the angle that it
should be.  None of this happens to a node that the grammar makes:

    the texts of tokens are right   `exists_ofChars?_number`, `exists_ofLetters?_unit`,
                                    `exists_angleSpec?`
    the parts are there             computed from the rule's expression, `Expr.times`
    hence every item can be read    `Item.exists_ofNode?`

So a source has items if and only if the grammar matches it.
-/
import PictureTree.Proofs.Document.Parts
import PictureTree.Proofs.Document.Reading
import PictureTree.Proofs.Numeral.Spelling

namespace PictureTree

open PictureTree.Expr Rule

/-! ## The texts of tokens -/

section Tokens

variable {t : List Char} {ns : List (Node Rule)}

theorem unsigned_of_derives
    (h : grammar.Derives .tight (.alt (seqs [.star (.one .digit), word ".", plus (.one .digit)])
      (.seq (plus (.one .digit)) (.opt (word ".")))) t ns) : Numeral.Unsigned t := by
  rcases h.or_of_alt with h | h
  · obtain ⟨whole, rest, _, _, rfl, hwhole, hrest⟩ := h.exists_of_tight_seq
    obtain ⟨point, ds, _, _, rfl, hpoint, hds⟩ := hrest.exists_of_tight_seq
    obtain ⟨rfl, -⟩ := hpoint.eq_of_lit
    obtain ⟨hne, hds⟩ := hds.forall_of_tight_plus
    exact .fraction hwhole.forall_of_tight_star hds hne
  · obtain ⟨whole, point, _, _, rfl, hwhole, hpoint⟩ := h.exists_of_tight_seq
    obtain ⟨hne, hwhole⟩ := hwhole.forall_of_tight_plus
    rcases hpoint.or_of_opt with ⟨rfl, -⟩ | hpoint
    · rw [List.append_nil]
      exact .whole hwhole hne
    · obtain ⟨rfl, -⟩ := hpoint.eq_of_lit
      exact .point hwhole hne

theorem plain_of_derives (h : grammar.Derives .tight (expr .number) t ns) : Numeral.Plain t := by
  obtain ⟨sign, body, _, _, rfl, hsign, hbody⟩ := h.exists_of_tight_seq
  have hbody : Numeral.Unsigned body := unsigned_of_derives hbody
  rcases hsign.or_of_opt with ⟨rfl, -⟩ | hsign
  · exact .unsigned hbody
  · obtain ⟨c, hc, rfl, -⟩ := hsign.exists_of_one
    have hc : c = '+' ∨ c = '-' := by simpa [CharClass.test] using hc
    exact .signed hc hbody

theorem exists_unit_of_derives {sp : Spacing} (h : grammar.Derives sp (expr .unit) t ns) :
    ∃ u : LengthUnit, t = u.letters := by
  obtain ⟨e, he, h⟩ := h.exists_of_alts
  obtain ⟨u, -, rfl⟩ := List.mem_map.mp he
  exact ⟨u, h.eq_of_lit.1⟩

theorem ofLetters?_letters (u : LengthUnit) : LengthUnit.ofLetters? u.letters = some u := by
  cases u <;> rfl

/-- The degrees that a direction or a number says, behind a star or without one. -/
theorem exists_angleSpec?_of_degrees {t : List Char}
    (h : Numeral.Plain t ∨ ∃ c ∈ "ULDRNWSE".toList, t = [c]) :
    (∃ a, Node.angleSpec? t = some a) ∧ ∃ a, Node.angleSpec? ('*' :: t) = some a := by
  rcases h with h | ⟨c, hc, rfl⟩
  · obtain ⟨n, hn⟩ := h.exists_ofChars?
    obtain ⟨c, r, rfl, hc⟩ := h.exists_cons
    have hstar : c ≠ '*' := by
      rintro rfl
      exact absurd hc (by decide)
    constructor
    · unfold Node.angleSpec?
      split
      next absolute body heq =>
        split at heq
        · next hcons => exact absurd (List.cons.inj hcons).1 hstar
        · cases heq
          split <;> simp [hn]
    · unfold Node.angleSpec?
      split
      next absolute body heq =>
        obtain ⟨-, rfl⟩ : true = absolute ∧ c :: r = body := by simpa using heq
        split <;> simp [hn]
  · have hletter : c = 'U' ∨ c = 'L' ∨ c = 'D' ∨ c = 'R' ∨ c = 'N' ∨ c = 'W' ∨ c = 'S' ∨
        c = 'E' := by
      simpa using hc
    rcases hletter with rfl | rfl | rfl | rfl | rfl | rfl | rfl | rfl <;>
      exact ⟨⟨_, rfl⟩, _, rfl⟩

theorem degrees_of_derives
    (h : grammar.Derives .tight (.alt (.rule .number) (.one (.among "ULDRNWSE".toList))) t ns) :
    Numeral.Plain t ∨ ∃ c ∈ "ULDRNWSE".toList, t = [c] := by
  rcases h.or_of_alt with h | h
  · obtain ⟨_, h, -⟩ := h.exists_of_rule
    exact .inl (plain_of_derives h)
  · obtain ⟨c, hc, rfl, -⟩ := h.exists_of_one
    exact .inr ⟨c, List.contains_iff_mem.mp hc, rfl⟩

theorem exists_angleSpec?_of_derives (h : grammar.Derives .tight (expr .angleSpec) t ns) :
    ∃ a, Node.angleSpec? t = some a := by
  obtain ⟨star, body, _, _, rfl, hstar, hbody⟩ := h.exists_of_tight_seq
  obtain ⟨hplain, hstarred⟩ := exists_angleSpec?_of_degrees (degrees_of_derives hbody)
  rcases hstar.or_of_opt with ⟨rfl, -⟩ | hstar
  · exact hplain
  · obtain ⟨rfl, -⟩ := hstar.eq_of_lit
    exact hstarred

end Tokens

/-! ## Arguments -/

theorem exists_mapM {α β : Type} {f : α → Option β} {xs : List α}
    (h : ∀ x ∈ xs, ∃ y, f x = some y) :
    ∃ ys, xs.mapM f = some ys ∧ ys.length = xs.length := by
  induction xs with
  | nil => exact ⟨[], rfl, rfl⟩
  | cons x xs ih =>
      obtain ⟨y, hy⟩ := h x List.mem_cons_self
      obtain ⟨ys, hys, hlength⟩ := ih fun x hx => h x (List.mem_cons_of_mem _ hx)
      exact ⟨y :: ys, by simp [hy, hys], by rw [List.length_cons, List.length_cons, hlength]⟩

namespace Node

section Arguments

variable {n : Node Rule} (hn : grammar.Makes n)
include hn

theorem exists_ofChars?_number (hrule : n.rule = .number) :
    ∃ x, Numeral.ofChars? n.text = some x := by
  obtain ⟨ns, hns⟩ := hn.derives_text
  rw [hrule] at hns
  exact (plain_of_derives hns).exists_ofChars?

theorem exists_ofLetters?_unit (hrule : n.rule = .unit) :
    ∃ u, LengthUnit.ofLetters? n.text = some u := by
  obtain ⟨ns, hns⟩ := hn.derives_text
  rw [hrule] at hns
  obtain ⟨u, hu⟩ := exists_unit_of_derives hns
  exact ⟨u, hu ▸ ofLetters?_letters u⟩

theorem exists_angleSpec? (hrule : n.rule = .angleSpec) :
    ∃ a, angleSpec? n.text = some a := by
  obtain ⟨ns, hns⟩ := hn.derives_text
  rw [hrule] at hns
  exact exists_angleSpec?_of_derives hns

theorem exists_quantity? (hrule : n.rule = .quantity) : ∃ q, n.quantity? = some q := by
  obtain ⟨p, hp, hprule, hpmade⟩ := hn.exists_text? (r := .number) (k := 0)
    (by rw [hrule]; decide) (by rw [hrule]; rfl)
  obtain ⟨x, hx⟩ := exists_ofChars?_number hpmade hprule
  cases hunit : n.first? .unit with
  | none =>
      have hunit : n.text? .unit = none := by rw [text?, hunit]; rfl
      simp [quantity?, hp, hx, hunit]
  | some p' =>
      obtain ⟨hprule', hpmade'⟩ := hn.of_first? hunit
      obtain ⟨u, hu⟩ := exists_ofLetters?_unit hpmade' hprule'
      have hunit : n.text? .unit = some p'.text := by rw [text?, hunit]; rfl
      simp [quantity?, hp, hx, hunit, hu]

/-- A pair has two quantities. -/
theorem exists_pair? (hrule : n.rule = .cartesianPair ∨ n.rule = .polarPair) :
    ∃ q, n.pair? = some q := by
  have hlength : (n.all .quantity).length = 2 := by
    refine hn.length_all ?_ ?_
    · rcases hrule with hrule | hrule <;> rw [hrule] <;> decide
    · rcases hrule with hrule | hrule <;> rw [hrule] <;> rfl
  obtain ⟨a, b, hall⟩ := List.length_eq_two.mp hlength
  have hread : ∀ p ∈ n.all .quantity, ∃ q, p.quantity? = some q := by
    intro p hp
    obtain ⟨hprule, hpmade⟩ := hn.of_mem_all hp
    exact exists_quantity? hpmade hprule
  obtain ⟨x, hx⟩ := hread a (by rw [hall]; exact List.mem_cons_self)
  obtain ⟨y, hy⟩ := hread b (by rw [hall]; exact List.mem_cons_of_mem _ List.mem_cons_self)
  exact ⟨(x, y), by simp [pair?, hall, hx, hy]⟩

/-- Every part of a node that is a pair can be read, so every node has a coordinate. -/
theorem exists_coord? : ∃ c, n.coord? = some c := by
  unfold coord?
  split
  · next p hp =>
      obtain ⟨hprule, hpmade⟩ := hn.of_first? hp
      obtain ⟨q, hq⟩ := exists_pair? hpmade (.inr hprule)
      exact ⟨_, by rw [hq]; rfl⟩
  · next p hp =>
      obtain ⟨hprule, hpmade⟩ := hn.of_first? hp
      obtain ⟨q, hq⟩ := exists_pair? hpmade (.inl hprule)
      exact ⟨_, by rw [hq]; rfl⟩
  · exact ⟨_, rfl⟩

theorem exists_argument? (hrule : n.rule = .argument) : ∃ q, n.argument? = some q := by
  obtain ⟨p, hp, hprule, hpmade⟩ := hn.exists_first? (r := .quantity) (k := 0)
    (by rw [hrule]; decide) (by rw [hrule]; rfl)
  obtain ⟨q, hq⟩ := exists_quantity? hpmade hprule
  exact ⟨q, by simp [argument?, hp, hq]⟩

theorem exists_coords? : ∃ cs, n.coords? = some cs ∧ cs.length = (n.all .coord).length := by
  refine exists_mapM ?_
  intro p hp
  exact exists_coord? (hn.of_mem_all hp).2

theorem exists_arguments? : ∃ a, n.arguments? = some a := by
  obtain ⟨cs, hcs, -⟩ := exists_coords? hn
  obtain ⟨qs, hqs, -⟩ : ∃ qs, (n.all .argument).mapM argument? = some qs ∧
      qs.length = (n.all .argument).length := by
    refine exists_mapM ?_
    intro p hp
    obtain ⟨hprule, hpmade⟩ := hn.of_mem_all hp
    exact exists_argument? hpmade hprule
  simp [arguments?, hcs, hqs]

theorem exists_placeAngle? : ∃ a, n.placeAngle? = some a := by
  unfold placeAngle?
  split
  · exact ⟨_, rfl⟩
  · next p hp =>
      obtain ⟨hprule, hpmade⟩ := hn.of_first? hp
      obtain ⟨p', hp', hprule', hpmade'⟩ := hpmade.exists_text? (r := .angleSpec) (k := 0)
        (by rw [hprule]; decide) (by rw [hprule]; rfl)
      obtain ⟨a, ha⟩ := exists_angleSpec? hpmade' hprule'
      exact ⟨some a, by simp [hp', ha]⟩

/-- The colour of a command that has one. -/
theorem exists_colorSpec? (hkind : grammar.kind n.rule ≠ .token)
    (htimes : n.rule.expr.times .colorSpec = some 1) : ∃ c, n.colorSpec? = some c := by
  obtain ⟨p, hp, hprule, hpmade⟩ := hn.exists_first? (k := 0) hkind htimes
  obtain ⟨values, hvalues⟩ := hpmade.exists_trimmed? (r := .colorValues) (k := 0)
    (by rw [hprule]; decide) (by rw [hprule]; rfl)
  simp [colorSpec?, hp, hvalues]

theorem exists_bracedText? (hkind : grammar.kind n.rule ≠ .token)
    (htimes : n.rule.expr.times .bracedText = some 1) : ∃ t, n.bracedText? = some t := by
  obtain ⟨p, hp, -⟩ := hn.exists_text? (k := 0) hkind htimes
  exact ⟨_, by rw [bracedText?, hp]; rfl⟩

end Arguments

/-! ## Commands and scopes -/

/-- The rules that make the items of a body. -/
def isItem (r : Rule) : Bool :=
  r = .picture || commands.contains r || pathCommands.contains r || r = .text

/-- A path command has as many points as it is read with. -/
theorem exists_pathCommand? {n : Node Rule} (hn : grammar.Makes n)
    (hrule : n.rule ∈ pathCommands) : ∃ c, n.pathCommand? = some c := by
  obtain ⟨cs, hcs, hlength⟩ := exists_coords? hn
  have htimes : ∀ {k : Nat}, n.rule.expr.times .coord = some k → cs.length = k := by
    intro k hk
    have hkind : ∀ r ∈ pathCommands, grammar.kind r ≠ .token := by decide
    rw [hlength, hn.length_all (hkind _ hrule) hk]
  obtain ⟨r, t, parts⟩ := n
  simp only [pathCommands, List.mem_cons, List.not_mem_nil, or_false] at hrule
  rcases hrule with hrule | hrule | hrule | hrule | hrule | hrule <;> cases hrule
  · obtain ⟨p, rfl⟩ := List.length_eq_one_iff.mp (htimes (k := 1) rfl)
    exact ⟨_, by simp [pathCommand?, hcs]; rfl⟩
  · exact ⟨_, by simp [pathCommand?, hcs]; rfl⟩
  · exact ⟨_, by simp [pathCommand?, hcs]; rfl⟩
  · obtain ⟨p, q, r, rfl⟩ := List.length_eq_three.mp (htimes (k := 3) rfl)
    exact ⟨_, by simp [pathCommand?, hcs]; rfl⟩
  · obtain ⟨p, q, r, rfl⟩ := List.length_eq_three.mp (htimes (k := 3) rfl)
    exact ⟨_, by simp [pathCommand?, hcs]; rfl⟩
  · exact ⟨_, by simp [pathCommand?, hcs]; rfl⟩

/-- The rules whose commands are shapes. -/
def shapeCommands : List Rule :=
  [.frame, .diamond, .triangle, .ellipse, .circle, .disk, .wedge, .arc, .line, .segment, .polygon,
   .bezier, .dots, .dot, .grid, .axes, .plot, .curve]

theorem exists_command?_shape {n : Node Rule} (hn : grammar.Makes n)
    (hrule : n.rule ∈ shapeCommands) : ∃ c, n.command? = some c := by
  obtain ⟨a, ha⟩ := exists_arguments? hn
  have hplot : n.rule = .plot → ∃ text, n.bracedText? = some text := by
    intro hplot
    exact exists_bracedText? hn (by rw [hplot]; decide) (by rw [hplot]; rfl)
  have hname : ∃ c, n.shapeCommand? = some c := by
    obtain ⟨r, t, parts⟩ := n
    cases r with
    | plot =>
        obtain ⟨text, htext⟩ := hplot rfl
        exact ⟨_, congrArg (Option.map ShapeCommand.plot) htext⟩
    | _ => first | exact ⟨_, rfl⟩ | simp [shapeCommands, rule] at hrule
  obtain ⟨c, hc⟩ := hname
  have hcommand : n.command? = do return .shape (← n.shapeCommand?) (← n.arguments?) := by
    obtain ⟨r, t, parts⟩ := n
    cases r <;> first | rfl | simp [shapeCommands, rule] at hrule
  exact ⟨.shape c a, by simp [hcommand, hc, ha]⟩

/-- The rules whose commands are neither shapes nor path commands. -/
def otherCommands : List Rule :=
  [.settings, .framedBox, .defineColor, .newColor, .useColor, .textColor, .include, .text]

theorem exists_command?_other {n : Node Rule} (hn : grammar.Makes n)
    (hrule : n.rule ∈ otherCommands) : ∃ c, n.command? = some c := by
  have hkind : n.rule ≠ .text → grammar.kind n.rule ≠ .token := by
    revert hrule
    generalize n.rule = r
    revert r
    decide
  obtain ⟨r, t, parts⟩ := n
  cases r with
  | settings | text => exact ⟨_, rfl⟩
  | framedBox =>
      obtain ⟨name, hname, -⟩ := hn.exists_text? (r := .boxName) (k := 0) (hkind (by simp [rule])) rfl
      obtain ⟨text, htext⟩ := exists_bracedText? hn (hkind (by simp [rule])) rfl
      simp [command?, rule, hname, htext]
  | defineColor =>
      obtain ⟨name, hname⟩ := hn.exists_trimmed? (r := .colorName) (k := 0) (hkind (by simp [rule])) rfl
      obtain ⟨model, hmodel⟩ := hn.exists_trimmed? (r := .colorModel) (k := 0) (hkind (by simp [rule])) rfl
      obtain ⟨values, hvalues⟩ := hn.exists_trimmed? (r := .colorValues) (k := 0) (hkind (by simp [rule])) rfl
      simp [command?, rule, hname, hmodel, hvalues]
  | newColor =>
      obtain ⟨name, hname⟩ := hn.exists_trimmed? (r := .colorName) (k := 0) (hkind (by simp [rule])) rfl
      obtain ⟨values, hvalues⟩ := hn.exists_trimmed? (r := .colorValues) (k := 0) (hkind (by simp [rule])) rfl
      simp [command?, rule, hname, hvalues]
  | useColor =>
      obtain ⟨color, hcolor⟩ := exists_colorSpec? hn (hkind (by simp [rule])) rfl
      simp [command?, rule, hcolor]
  | textColor =>
      obtain ⟨color, hcolor⟩ := exists_colorSpec? hn (hkind (by simp [rule])) rfl
      obtain ⟨text, htext⟩ := exists_bracedText? hn (hkind (by simp [rule])) rfl
      simp [command?, rule, hcolor, htext]
  | «include» =>
      obtain ⟨path, hpath⟩ := hn.exists_trimmed? (r := .filePath) (k := 0) (hkind (by simp [rule])) rfl
      simp [command?, rule, hpath]
  | _ => simp [otherCommands, rule] at hrule

/-- Whatever is no scope and makes an item is read as a command. -/
theorem exists_command? {n : Node Rule} (hn : grammar.Makes n) (hitem : isItem n.rule = true)
    (hscope : isScope n.rule = false) : ∃ c, n.command? = some c := by
  have hrules : n.rule ∈ pathCommands ∨ n.rule ∈ shapeCommands ∨ n.rule ∈ otherCommands := by
    revert hitem hscope
    generalize n.rule = r
    cases r <;> decide
  rcases hrules with hpath | hshape | hother
  · obtain ⟨c, hc⟩ := exists_pathCommand? hn hpath
    obtain ⟨r, t, parts⟩ := n
    simp only [pathCommands, List.mem_cons, List.not_mem_nil, or_false] at hpath
    rcases hpath with hrule | hrule | hrule | hrule | hrule | hrule <;> cases hrule <;>
      exact ⟨_, congrArg (Option.map Command.path) hc⟩
  · exact exists_command?_shape hn hshape
  · exact exists_command?_other hn hother

theorem exists_scopeHead? {n : Node Rule} (hn : grammar.Makes n)
    (hscope : isScope n.rule = true) : ∃ head, n.scopeHead? = some head := by
  obtain ⟨cs, hcs, -⟩ := exists_coords? hn
  have hkind : grammar.kind n.rule ≠ .token := by
    revert hscope
    generalize n.rule = r
    cases r <;> decide
  obtain ⟨r, t, parts⟩ := n
  cases r with
  | picture => simp [scopeHead?, rule, hcs]
  | block | custom => exact ⟨_, rfl⟩
  | place =>
      obtain ⟨angle, hangle⟩ := exists_placeAngle? hn
      obtain ⟨p, hp, -, hpmade⟩ := hn.exists_first? (r := .coord) (k := 0) hkind rfl
      obtain ⟨c, hc⟩ := exists_coord? hpmade
      simp [scopeHead?, rule, hangle, hp, hc]
  | turn =>
      obtain ⟨p, hp, -, hpmade⟩ := hn.exists_first? (r := .coord) (k := 0) hkind rfl
      obtain ⟨c, hc⟩ := exists_coord? hpmade
      obtain ⟨p', hp', hprule, hpmade'⟩ := hn.exists_first? (r := .argument) (k := 0) hkind rfl
      obtain ⟨q, hq⟩ := exists_argument? hpmade' hprule
      simp [scopeHead?, rule, hp, hc, hp', hq]
  | _ => cases hscope

/-- A scope has a body. -/
theorem exists_isBody {n : Node Rule} (hn : grammar.Makes n) (hscope : isScope n.rule = true) :
    ∃ p ∈ n.parts, isBody p.rule = true := by
  have htimes : ∃ r, isBody r = true ∧ n.rule.expr.times r = some 1 ∧
      grammar.kind n.rule ≠ .token := by
    revert hscope
    generalize n.rule = r
    intro hscope
    cases r with
    | picture | block | place | turn => exact ⟨.body, rfl, rfl, by decide⟩
    | custom => exact ⟨.customBody, rfl, rfl, by decide⟩
    | _ => cases hscope
  obtain ⟨r, hbody, htimes, hkind⟩ := htimes
  obtain ⟨p, hp, hprule, -⟩ := hn.exists_first? (k := 0) hkind htimes
  exact ⟨p, List.mem_of_find?_eq_some hp, hprule ▸ hbody⟩

/-- The parts of a body, and of a document, are items. -/
theorem isItem_of_mem_parts {n : Node Rule} (hn : grammar.Makes n)
    (hrule : isBody n.rule = true ∨ n.rule = .document) :
    ∀ p ∈ n.parts, grammar.Makes p ∧ isItem p.rule = true := by
  have hcalls : ∀ r ∈ n.rule.expr.calls, isItem r = true := by
    have hrule : n.rule ∈ [Rule.document, .body, .customBody] := by
      revert hrule
      generalize n.rule = r
      cases r <;> decide
    have hcalls : ∀ r ∈ [Rule.document, .body, .customBody], ∀ r' ∈ r.expr.calls,
        isItem r' = true := by
      decide
    exact hcalls _ hrule
  intro p hp
  exact ⟨hn.of_mem hp, hcalls _ (hn.rule_mem_calls p hp)⟩

end Node

/-! ## Items -/

mutual

theorem Item.exists_ofNode? : ∀ (n : Node Rule), grammar.Makes n → Node.isItem n.rule = true →
    ∃ item, Item.ofNode? n = some item
  | .mk r t parts, hn, hitem => by
      rw [Item.ofNode?]
      cases hscope : Node.isScope r with
      | true =>
          obtain ⟨head, hhead⟩ := Node.exists_scopeHead? hn hscope
          obtain ⟨items, hitems⟩ :=
            Item.exists_ofBody? parts (fun p hp => hn.of_mem hp) (Node.exists_isBody hn hscope)
          simp [hhead, hitems]
      | false =>
          obtain ⟨c, hc⟩ := Node.exists_command? hn hitem hscope
          simp [hc]

theorem Item.exists_ofBody? : ∀ (ns : List (Node Rule)), (∀ n ∈ ns, grammar.Makes n) →
    (∃ n ∈ ns, Node.isBody n.rule = true) → ∃ items, Item.ofBody? ns = some items
  | [], _, h => by
      obtain ⟨n, hn, -⟩ := h
      cases hn
  | .mk r t parts :: rest, hns, h => by
      rw [Item.ofBody?]
      cases hbody : Node.isBody r with
      | true =>
          have hn : grammar.Makes (.mk r t parts) := hns _ List.mem_cons_self
          exact Item.exists_ofNodes? parts (Node.isItem_of_mem_parts hn (.inl hbody))
      | false =>
          obtain ⟨n, hn, hnbody⟩ := h
          rcases List.mem_cons.mp hn with rfl | hn
          · exact absurd (hbody.symm.trans hnbody) Bool.false_ne_true
          · exact Item.exists_ofBody? rest (fun n hn => hns n (List.mem_cons_of_mem _ hn))
              ⟨n, hn, hnbody⟩

theorem Item.exists_ofNodes? : ∀ (ns : List (Node Rule)),
    (∀ n ∈ ns, grammar.Makes n ∧ Node.isItem n.rule = true) →
    ∃ items, Item.ofNodes? ns = some items
  | [], _ => ⟨[], rfl⟩
  | n :: ns, h => by
      obtain ⟨hn, hitem⟩ := h n List.mem_cons_self
      obtain ⟨item, hitem⟩ := Item.exists_ofNode? n hn hitem
      obtain ⟨items, hitems⟩ := Item.exists_ofNodes? ns fun n hn => h n (List.mem_cons_of_mem _ hn)
      simp [Item.ofNodes?, hitem, hitems]

end

/-! ## Sources -/

/-- Nothing is behind a document. -/
theorem rest_of_start?_document {s : List Char} {m : Match Rule}
    (h : grammar.start? .document s = some m) : m.rest = [] := by
  obtain ⟨n, hn, rfl⟩ := Option.map_eq_some_iff.mp h
  have hn : (expr .document).run (grammar.apply (4 * s.length + 3)) .loose s = some n := hn
  have hrun := run_document (4 * s.length + 3) s
  rw [hn, Option.map_some] at hrun
  split at hrun
  · exact (Prod.mk.inj (Option.some.inj hrun)).1
  · cases hrun

/-- A match of a document is one of the whole source. -/
theorem exists_whole?_of_start? {s : List Char} {m : Match Rule}
    (h : grammar.start? .document s = some m) :
    ∃ node, grammar.whole? .document s = some node ∧ node.rule = .document ∧
      grammar.Makes node := by
  have hrest : m.rest = [] := rest_of_start?_document h
  obtain ⟨n, hn, rfl⟩ := Option.map_eq_some_iff.mp h
  rw [Match.rest_wrap] at hrest
  refine ⟨.mk .document n.taken n.nodes, ?_, rfl, n.nodes, ?_, rfl⟩
  · rw [Grammar.whole?, h]
    simp only [Match.wrap, hrest]
    rfl
  · exact Expr.derives_run Grammar.derives_apply hn

/-- The parts of the node of a document are items, and every item can be read: a source has
items if and only if the grammar matches it. -/
theorem ofSource?_isSome_iff_start? (source : String) :
    (Item.ofSource? source).isSome = true ↔
      (grammar.start? .document source.toList).isSome = true := by
  rw [Item.ofSource?]
  cases h : grammar.start? .document source.toList with
  | none => simp [Grammar.whole?, h]
  | some m =>
      obtain ⟨node, hwhole, hrule, hmade⟩ := exists_whole?_of_start? h
      obtain ⟨items, hitems⟩ :=
        Item.exists_ofNodes? node.parts (Node.isItem_of_mem_parts hmade (.inr hrule))
      simp [hwhole, hitems]

end PictureTree
