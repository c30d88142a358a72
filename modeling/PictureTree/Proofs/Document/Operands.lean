/-
# `Proofs.Document.Operands` — reading what is behind the name of a command

Whatever stands between its pieces, an operand is taken by its rule, and the node that
the rule makes is read as the operand says:

    Takes tail (.rule o.rule) (o.before ps) ps  (one node, of which `o` is read)

Where another operand is next, or none, the rule refuses (`Operand.refuses`).
-/
import PictureTree.Proofs.Document.Written

namespace PictureTree

open PictureTree.Expr Rule Trailer

variable {tail : List Char} {ps : List (List Char)}

/-! ## Measures and coordinates -/

namespace Measure

variable (m : Measure)

/-- The node of a measure. -/
def node : Node Rule := Node.ofQuantity m.number m.unit

theorem takes (hnext : ∀ c ∈ next tail ps, endsToken c = true) :
    Takes tail (.rule .quantity) (m.text :: ps) ps (· = [m.node]) :=
  takes_quantity m.plain hnext

@[simp] theorem rule_node : m.node.rule = .quantity := rfl

@[simp] theorem quantity?_node : m.node.quantity? = some m.quantity := by
  obtain ⟨value, hvalue⟩ := m.plain.exists_ofChars?
  obtain ⟨number, unit, plain⟩ := m
  cases unit with
  | none =>
      simp [node, Node.ofQuantity, Node.quantity?, Node.text?, Node.first?, Node.parts, Node.rule,
        Node.text, quantity, hvalue]
  | some u =>
      simp [node, Node.ofQuantity, Node.quantity?, Node.text?, Node.first?, Node.parts, Node.rule,
        Node.text, quantity, hvalue, ofLetters?_letters]

end Measure

/-- No quantity starts with a closing parenthesis. -/
theorem refuses_quantity : Refuses tail (.rule .quantity) ([')'] :: ps) := by
  intro s hs
  obtain ⟨t, ht, -⟩ := hs.exists_gap
  have hnumber : grammar.start? .number (')' :: t) = none := by
    rw [start?_eq_run]
    rfl
  have hspacing : Rule.quantity.kind.spacing = .tight := rfl
  have hbody : expr .quantity = .seq (.rule .number) (.opt (.rule .unit)) := rfl
  rw [ht, Expr.run, start?_eq_run, hspacing, hbody, List.singleton_append,
    run_seq_of_none (show (Expr.rule .number).run grammar.start? .tight _ = none from hnumber)]
  rfl

namespace Position

/-- What the node of a coordinate says. -/
def Of (p : Position) (n : Node Rule) : Prop := n.rule = .coord ∧ n.coord? = some p.coord

/-- A pair of measures with a word between them. -/
theorem takes_pair {r : Rule} {w : String} {c : Char} {x y : Measure} (hr : r.kind = .phrase)
    (hbody : expr r = seqs [.rule .quantity, word w, .rule .quantity])
    (hw : w.toList = [c]) (hc : endsToken c = true) :
    Takes tail (.rule r) (x.text :: [c] :: y.text :: [')'] :: ps) ([')'] :: ps)
      fun ns => ∃ t, ns = [.mk r t [x.node, y.node]] := by
  have hspacing : r.kind.spacing = .loose := by rw [hr]; rfl
  have hx : ∀ d ∈ next tail ([c] :: y.text :: [')'] :: ps), endsToken d = true := by
    intro d hd
    obtain rfl := Option.some.inj hd
    exact hc
  have hy : ∀ d ∈ next tail ([')'] :: ps), endsToken d = true := by
    intro d hd
    obtain rfl := Option.some.inj hd
    rfl
  have hword : Takes tail (word w) ([c] :: y.text :: [')'] :: ps) (y.text :: [')'] :: ps) NoNodes :=
    hw ▸ takes_word w
  have hpair : Takes tail (expr r) (x.text :: [c] :: y.text :: [')'] :: ps) ([')'] :: ps)
      (Both (· = [x.node]) (Both NoNodes (· = [y.node]))) := by
    rw [hbody]
    exact (x.takes hx).seq (hword.seq (y.takes hy))
  refine (hpair.rule hspacing).mono ?_
  rintro ns ⟨t, parts, rfl, xs, ys, rfl, rfl, zs, us, rfl, rfl, rfl⟩
  exact ⟨t, by rw [hr]; rfl⟩

/-- A comma is no semicolon. -/
theorem refuses_polarPair {x y : Measure} :
    Refuses tail (.rule .polarPair) (x.text :: [','] :: y.text :: [')'] :: ps) := by
  have hx : ∀ d ∈ next tail ([','] :: y.text :: [')'] :: ps), endsToken d = true := by
    intro d hd
    obtain rfl := Option.some.inj hd
    rfl
  have hword : Refuses tail (word ";") ([','] :: y.text :: [')'] :: ps) :=
    refuses_word (c := ';') rfl (by simp [next])
  exact Refuses.rule rfl ((x.takes hx).seq_refuses hword.seq)

theorem pair?_measures (r : Rule) (t : List Char) (x y : Measure) :
    (Node.mk r t [x.node, y.node]).pair? = some (x.quantity, y.quantity) := by
  have hall : (Node.mk r t [x.node, y.node]).all .quantity = [x.node, y.node] := rfl
  simp [Node.pair?, hall]

theorem takes (p : Position) : Takes tail (.rule .coord) (p.before ps) ps
    fun ns => ∃ n, ns = [n] ∧ p.Of n := by
  have hbetween : ∀ {qs : List (List Char)} {P : List (Node Rule) → Prop},
      Takes tail (.opt (.alt (.rule .polarPair) (.rule .cartesianPair))) qs ([')'] :: ps) P →
      (∀ t ns, P ns → (Node.mk .coord t ns).coord? = some p.coord) →
      Takes tail (.rule .coord) (['('] :: qs) ps fun ns => ∃ n, ns = [n] ∧ p.Of n := by
    intro qs P hpair hP
    have hbody : Takes tail (expr .coord) (['('] :: qs) ps _ :=
      (takes_word "(").seq (hpair.seq (takes_word ")"))
    refine (hbody.rule rfl).mono ?_
    rintro ns ⟨t, parts, rfl, xs, ys, rfl, rfl, zs, us, rfl, hzs, rfl⟩
    refine ⟨_, rfl, rfl, ?_⟩
    have h := hP t zs hzs
    simpa [RuleKind.shown, kind] using h
  cases p with
  | origin =>
      have hpolar : Refuses tail (.rule .polarPair) ([')'] :: ps) :=
        Refuses.rule rfl refuses_quantity.seq
      have hcartesian : Refuses tail (.rule .cartesianPair) ([')'] :: ps) :=
        Refuses.rule rfl refuses_quantity.seq
      refine hbetween (hpolar.alt_refuses hcartesian).opt ?_
      rintro t ns rfl
      rfl
  | cartesian x y =>
      have hpair : Takes tail (.rule .cartesianPair) (x.text :: [','] :: y.text :: [')'] :: ps)
          ([')'] :: ps) _ :=
        takes_pair rfl rfl rfl rfl
      refine hbetween (refuses_polarPair.alt hpair).opt ?_
      rintro t ns ⟨t', rfl⟩
      simp [Node.coord?, Node.first?, Node.parts, Node.rule, pair?_measures, coord]
  | polar r a =>
      have hpair : Takes tail (.rule .polarPair) (r.text :: [';'] :: a.text :: [')'] :: ps)
          ([')'] :: ps) _ :=
        takes_pair rfl rfl rfl rfl
      refine hbetween hpair.alt.opt ?_
      rintro t ns ⟨t', rfl⟩
      simp [Node.coord?, Node.first?, Node.parts, Node.rule, pair?_measures, coord]

end Position

/-! ## Settings -/

/-- A comma or a closing bracket is next: a setting ends here. -/
def EndsEntry (ps : List (List Char)) : Prop := ∃ p qs, ps = p :: qs ∧ (p = [','] ∨ p = [']'])

theorem EndsEntry.next (h : EndsEntry ps) (tail : List Char) :
    next tail ps = some ',' ∨ next tail ps = some ']' := by
  obtain ⟨p, qs, rfl, rfl | rfl⟩ := h
  · exact .inl rfl
  · exact .inr rfl

/-- No setting starts with a comma or a bracket. -/
theorem refuses_param (hps : EndsEntry ps) : Refuses tail (.rule .param) ps := by
  refine Refuses.rule rfl (Refuses.seq ?_)
  intro s hs
  obtain ⟨p, qs, rfl, hp⟩ := hps
  obtain ⟨t, ht, -⟩ := hs.exists_gap
  rw [ht, Expr.run, start?_eq_run]
  rcases hp with rfl | rfl <;> rfl

namespace Entry

theorem endsEntry_closing (trailing : Bool) (ps : List (List Char)) :
    EndsEntry (Operand.closing trailing ps) := by
  cases trailing with
  | true => exact ⟨_, _, rfl, .inl rfl⟩
  | false => exact ⟨_, _, rfl, .inr rfl⟩

theorem endsEntry_more (es : List Entry) (hps : EndsEntry ps) : EndsEntry (more es ps) := by
  cases es with
  | nil => exact hps
  | cons e es => exact ⟨_, _, rfl, .inl rfl⟩

/-- What the node of a setting says. -/
def Of (e : Entry) (n : Node Rule) : Prop := n.rule = .param ∧ n.param = e.param

theorem takes (e : Entry) (hps : EndsEntry ps) :
    Takes tail (.rule .param) (e.before ps) ps fun ns => ∃ n, ns = [n] ∧ e.Of n := by
  obtain ⟨key, value, hkey, hvalue⟩ := e
  cases value with
  | none =>
      have hends : ∀ c ∈ next tail ps, endsToken c = true := by
        intro c hc
        rcases hps.next tail with h | h <;> rw [h] at hc <;>
          obtain rfl := Option.some.inj hc <;> rfl
      have hno : Refuses tail (word "=") ps := by
        refine refuses_word (c := '=') rfl ?_
        rcases hps.next tail with h | h <;> rw [h] <;> decide
      have hbody : Takes tail (expr .param) (key :: ps) ps _ :=
        (takes_paramKey hkey hends).seq (Refuses.seq hno).opt
      refine (hbody.rule rfl).mono ?_
      rintro ns ⟨t, parts, rfl, xs, ys, rfl, rfl, rfl⟩
      exact ⟨_, rfl, rfl, rfl⟩
  | some v =>
      obtain ⟨p, qs, rfl, hp⟩ := hps
      have hends : ∀ c ∈ next tail (['='] :: glue v (p :: qs)), endsToken c = true := by
        intro c hc
        obtain rfl := Option.some.inj hc
        rfl
      have hsolid : Solid p := by
        rcases hp with rfl | rfl <;> exact ⟨_, _, rfl, rfl⟩
      have hlast : ∃ c ∈ [',', ']'], p.head? = some c := by
        rcases hp with rfl | rfl
        · exact ⟨',', by simp, rfl⟩
        · exact ⟨']', by simp, rfl⟩
      have hbody : Takes tail (expr .param) (key :: ['='] :: glue v (p :: qs)) (p :: qs) _ :=
        (takes_paramKey hkey hends).seq
          ((takes_word "=").seq (takes_paramValue (hvalue v rfl) hsolid hlast)).opt
      refine (hbody.rule rfl).mono ?_
      rintro ns ⟨t, parts, rfl, xs, ys, rfl, rfl, zs, us, rfl, rfl, rfl⟩
      exact ⟨_, rfl, rfl, rfl⟩

/-- Settings with a comma in front of each, up to the bracket. -/
theorem takesMany (es : List Entry) (trailing : Bool) :
    TakesMany tail (.seq (word ",") (.rule .param)) (more es (Operand.closing trailing ps))
      (Operand.closing trailing ps) (List.Forall₂ Of es) := by
  induction es with
  | nil =>
      have hno : Refuses tail (.seq (word ",") (.rule .param)) (Operand.closing trailing ps) := by
        cases trailing with
        | true => exact (takes_word ",").seq_refuses (refuses_param ⟨_, _, rfl, .inr rfl⟩)
        | false => exact Refuses.seq (refuses_word (c := ',') rfl (by simp [next, Operand.closing]))
      intro s hs
      obtain ⟨hrest, hnodes⟩ := hno.many s hs
      exact ⟨hrest, hnodes ▸ .nil⟩
  | cons e es ih =>
      have hends := endsEntry_more es (endsEntry_closing trailing ps)
      intro s hs
      have hone : Takes tail (.seq (word ",") (.rule .param))
          (more (e :: es) (Operand.closing trailing ps)) (more es (Operand.closing trailing ps)) _ :=
        (takes_word ",").seq (e.takes hends)
      obtain ⟨hrest, xs, ys, hnodes, hxs, hys⟩ := TakesMany.more (by decide) hone ih s hs
      obtain ⟨_, _, rfl, rfl, n, rfl, hn⟩ := hxs
      exact ⟨hrest, hnodes ▸ .cons hn hys⟩

/-- Settings with commas between them, and perhaps one behind the last. -/
theorem takes_listed (es : List Entry) (trailing : Bool) :
    Takes tail paramList (listed es (Operand.closing trailing ps)) ([']'] :: ps)
      (List.Forall₂ Of es) := by
  have hcomma : Takes tail (.opt (word ",")) (Operand.closing trailing ps) ([']'] :: ps)
      NoNodes := by
    cases trailing with
    | true => exact (takes_word ",").opt
    | false => exact Refuses.opt (refuses_word (c := ',') rfl (by simp [next, Operand.closing]))
  have hends := endsEntry_closing trailing ps
  cases es with
  | nil =>
      have hno : Refuses tail (.seq (.rule .param) (.star (.seq (word ",") (.rule .param))))
          (Operand.closing trailing ps) :=
        Refuses.seq (refuses_param hends)
      refine (hno.opt.seq hcomma).mono ?_
      rintro ns ⟨xs, ys, rfl, rfl, rfl⟩
      exact .nil
  | cons e es =>
      have hmore : Takes tail (.star (.seq (word ",") (.rule .param)))
          (more es (Operand.closing trailing ps)) (Operand.closing trailing ps)
          (List.Forall₂ Of es) :=
        (takesMany es trailing).star (by decide)
      refine ((((e.takes (endsEntry_more es hends)).seq hmore).opt).seq hcomma).mono ?_
      rintro ns ⟨_, _, rfl, ⟨_, ys, rfl, ⟨n, rfl, hn⟩, hys⟩, rfl⟩
      rw [List.append_nil]
      exact .cons hn hys

theorem settings_of_forall₂ {es : List Entry} {ns : List (Node Rule)} (h : List.Forall₂ Of es ns)
    (r : Rule) (t : List Char) : (Node.mk r t ns).settings = es.map param := by
  rw [Node.settings, Node.all, Node.parts]
  induction h with
  | nil => rfl
  | cons hn hns ih =>
      rw [List.filter_cons_of_pos (by simp [hn.1]), List.map_cons, List.map_cons, hn.2, ih]

end Entry

/-! ## Operands -/

namespace Operand

/-- What the node of an operand says. -/
def Of (o : Operand) (n : Node Rule) : Prop :=
  n.rule = o.rule ∧ match o with
    | .star => True
    | .params es _ => n.settings = es.map Entry.param
    | .arrows a => n.text = bracedArrows a.left a.arrows a.right
    | .coord p => n.coord? = some p.coord
    | .argument m => n.argument? = some m.quantity
    | .function t _ => n.text = '{' :: (t ++ ['}'])

theorem takes (o : Operand) :
    Takes tail (.rule o.rule) (o.before ps) ps fun ns => ∃ n, ns = [n] ∧ o.Of n := by
  cases o with
  | star =>
      have hstar : Takes tail (expr .star) (['*'] :: ps) ps NoNodes := takes_word "*"
      refine (hstar.rule rfl).mono ?_
      rintro ns ⟨t, parts, rfl, -⟩
      exact ⟨_, rfl, rfl, trivial⟩
  | params es trailing =>
      have hbody : Takes tail (expr .params)
          (['['] :: Entry.listed es (closing trailing ps)) ps _ :=
        (takes_word "[").seq ((Entry.takes_listed es trailing).seq (takes_word "]"))
      refine (hbody.rule rfl).mono ?_
      rintro ns ⟨t, parts, rfl, _, _, rfl, rfl, xs, _, rfl, hxs, rfl⟩
      rw [List.nil_append, List.append_nil]
      exact ⟨_, rfl, rfl, Entry.settings_of_forall₂ hxs _ _⟩
  | arrows a =>
      refine (takes_arrows a.closedLeft a.isArrows a.closedRight).mono ?_
      rintro ns rfl
      exact ⟨_, rfl, rfl, rfl⟩
  | coord p => exact p.takes
  | argument m =>
      have hends : ∀ c ∈ next tail (['}'] :: ps), endsToken c = true := by
        intro c hc
        obtain rfl := Option.some.inj hc
        rfl
      have hbody : Takes tail (expr .argument) (['{'] :: m.text :: ['}'] :: ps) ps _ :=
        (takes_word "\x7b").seq ((m.takes hends).seq (takes_word "\x7d"))
      refine (hbody.rule rfl).mono ?_
      rintro ns ⟨t, parts, rfl, _, _, rfl, rfl, _, _, rfl, rfl, rfl⟩
      refine ⟨_, rfl, rfl, ?_⟩
      simp [Node.argument?, Node.first?, Node.parts, RuleKind.shown, kind]
  | function t ht =>
      refine (takes_bracedText ht).mono ?_
      rintro ns rfl
      exact ⟨_, rfl, rfl, rfl⟩

/-! ### Which operand is next -/

/-- The rules of operands. -/
def rules : List Rule := [.star, .params, .arrows, .coord, .argument, .bracedText]

/-- The character that an operand starts with. -/
def opening : Rule → Char
  | .star => '*'
  | .params => '['
  | .coord => '('
  | _ => '{'

theorem openings_eq_opening : ∀ r ∈ rules, (grammar.openings 1 r).any
    (fun os => os.all fun o => o.text.head? = some (opening r)) = true := by
  decide

theorem next_before (o : Operand) : next tail (o.before ps) = some (opening o.rule) := by
  cases o with
  | coord p => cases p <;> rfl
  | _ => rfl

theorem refuses_of_opening {r : Rule} (hr : r ∈ rules) (hnext : next tail ps ≠ some (opening r)) :
    Refuses tail (.rule r) ps :=
  refuses_of_next (openings_eq_opening r hr) hnext

/-- A number goes on with a digit or a point, neither of which is found in arrows. -/
theorem test_glyphs_of_isDigit {c : Char} (hc : c.isDigit = true ∨ c = '.') :
    CharClass.test (.among glyphs) c = false := by
  have hglyphs : ∀ d ∈ glyphs, (d.isDigit || d == '.') = false := by simp
  refine Bool.eq_false_iff.mpr ?_
  intro h
  have hnot := hglyphs c (List.contains_iff_mem.mp h)
  rcases hc with hc | rfl
  · simp [hc] at hnot
  · simp at hnot

theorem endsToken_of_isDigit {c : Char} (hc : c.isDigit = true ∨ c = '.') :
    endsToken c = false := by
  rcases hc with hc | rfl
  · simp [endsToken, Char.isAlphanum, hc]
  · rfl

theorem start?_arrowSpec_eq_none {c : Char} (hc : CharClass.test (.among glyphs) c = false)
    (hne : c ≠ '-') (s : List Char) : grammar.start? .arrowSpec (c :: s) = none := by
  have hstop : Stops (.among glyphs) (c :: s) := by
    intro d hd
    obtain rfl := Option.some.inj hd
    exact hc
  have hhyphen : (Expr.seq (word "-") arrowEnd).run grammar.start? .tight (c :: s) = none := by
    refine run_seq_of_none ?_
    simp [Expr.word, Expr.run, Text.after?, Ne.symm hne]
  have hrun : (expr .arrowSpec).run grammar.start? .tight ([] ++ c :: s) = none :=
    run_seq_of_eats (eats_star_one (by simp) hstop) hhyphen
  have hspacing : Rule.arrowSpec.kind.spacing = .tight := rfl
  rw [start?_eq_run, hspacing, ← List.nil_append (c :: s), hrun]
  rfl

/-- A number is no arrows: a hyphen may be its sign, but no brace is behind the sign. -/
theorem refuses_arrows (m : Measure) :
    Refuses tail (.rule .arrows) ((Operand.argument m).before ps) := by
  have hinside : Refuses tail (.seq (.rule .arrowSpec) (word "\x7d")) (m.text :: ['}'] :: ps) := by
    intro s hs
    obtain ⟨t, ht, -⟩ := hs.exists_gap
    obtain ⟨number, unit, hplain⟩ := m
    rw [ht]
    have hspec : ∀ {c : Char} {r : List Char}, CharClass.test (.among glyphs) c = false →
        c ≠ '-' → (Expr.seq (.rule .arrowSpec) (word "\x7d")).run grammar.start? .loose (c :: r)
          = none := by
      intro c r hc hne
      exact run_seq_of_none (start?_arrowSpec_eq_none hc hne r)
    cases hplain with
    | unsigned hn =>
        obtain ⟨c, r, rfl, hc⟩ := hn.exists_cons
        refine hspec (test_glyphs_of_isDigit hc) ?_
        rintro rfl
        exact absurd (endsToken_of_isDigit hc) (by decide)
    | @signed c n hsign hn =>
        rcases hsign with rfl | rfl
        · exact hspec rfl (by decide)
        · obtain ⟨c, r, rfl, hc⟩ := hn.exists_cons
          obtain ⟨u, hu⟩ : ∃ u, Measure.text ⟨'-' :: c :: r, unit, .signed (.inr rfl) hn⟩ ++ t
              = ['-'] ++ c :: u := ⟨_, rfl⟩
          have hstop : Stops (.among glyphs) (c :: u) := by
            intro d hd
            obtain rfl := Option.some.inj hd
            exact test_glyphs_of_isDigit hc
          have hsolid : isSolid c = true := by
            cases hsolid : isSolid c with
            | true => rfl
            | false =>
                have hends := endsToken_of_not_isSolid hsolid
                rw [endsToken_of_isDigit hc] at hends
                cases hends
          have harrows : IsArrows ['-'] := ⟨[], [], rfl, by simp, by simp⟩
          have hminus : (Expr.rule .arrowSpec).run grammar.start? .loose (['-'] ++ c :: u) = some _ :=
            start?_arrowSpec harrows hstop
          rw [hu, run_seq_of_isSolid hminus rfl hsolid]
          have hbrace : c ≠ '}' := by
            rintro rfl
            exact absurd (endsToken_of_isDigit hc) (by decide)
          simp [Expr.word, Expr.run, Text.after?, Ne.symm hbrace]
  exact Refuses.rule rfl ((takes_word "\x7b").seq_refuses hinside)

/-! ### What the operands of a command say -/

section Readings

variable {β : Type} {r : Rule} {os : List Operand} {ns : List (Node Rule)}

theorem any_of_forall₂ (h : List.Forall₂ Of os ns) (r : Rule) :
    (ns.any fun n => n.rule = r) = os.any fun o => o.rule = r := by
  induction h with
  | nil => rfl
  | cons hn _ ih => simp [hn.1, ih]

theorem find?_of_forall₂ {f : Node Rule → β} {g : Operand → Option β} (h : List.Forall₂ Of os ns)
    (hg : ∀ o n, o.Of n → g o = if o.rule = r then some (f n) else none) :
    (ns.find? fun n => n.rule = r).map f = os.findSome? g := by
  induction h with
  | nil => rfl
  | @cons o n os ns hn _ ih =>
      by_cases hr : o.rule = r
      · simp [hn.1, hr, hg o n hn]
      · simp [hn.1, hr, hg o n hn, ih]

theorem mapM_of_forall₂ {f : Node Rule → Option β} {g : Operand → Option β}
    (h : List.Forall₂ Of os ns) (hsome : ∀ o, o.rule = r → ∃ b, g o = some b)
    (hg : ∀ o n, o.Of n → g o = if o.rule = r then f n else none) :
    (ns.filter fun n => n.rule = r).mapM f = some (os.filterMap g) := by
  induction h with
  | nil => rfl
  | @cons o n os ns hn _ ih =>
      have hgo := hg o n hn
      by_cases hr : o.rule = r
      · obtain ⟨b, hb⟩ := hsome o hr
        rw [if_pos hr, hb] at hgo
        simp [hn.1, hr, hb, ← hgo, ih]
      · rw [if_neg hr] at hgo
        simp [hn.1, hr, hgo, ih]

theorem trimBy_between {p : Char → Bool} {c d : Char} {t : List Char} (hc : p c = true)
    (hd : p d = true) (hhead : ∀ x ∈ t.head?, p x = false) (hlast : ∀ x ∈ t.getLast?, p x = false) :
    Text.trimBy p (c :: (t ++ [d])) = t := by
  have hstart : Text.trimStart p (c :: (t ++ [d])) = (t ++ [d]).dropWhile p :=
    List.dropWhile_cons_of_pos hc
  rw [Text.trimBy, hstart]
  cases t with
  | nil => simp [Text.trimEnd, hd]
  | cons x t =>
      have hx : p x = false := hhead x rfl
      obtain ⟨y, u, hu⟩ := List.exists_cons_of_ne_nil
        (List.reverse_ne_nil_iff.mpr (List.cons_ne_nil x t))
      have hy : p y = false := by
        refine hlast y ?_
        rw [List.getLast?_eq_head?_reverse, hu]
        rfl
      rw [List.cons_append, List.dropWhile_cons_of_neg (by simp [hx]), Text.trimEnd,
        ← List.cons_append, List.reverse_append, List.reverse_singleton, List.singleton_append,
        List.dropWhile_cons_of_pos hd, hu, List.dropWhile_cons_of_neg (by simp [hy]), ← hu,
        List.reverse_reverse]

/-- Neither arrows nor what may stand next to them start or end in braces. -/
theorem trimBy_bracedArrows (a : Arrowed) :
    Text.trimBy (fun c => c == '\x7b' || c == '\x7d') (bracedArrows a.left a.arrows a.right)
      = a.left ++ (a.arrows ++ a.right) := by
  obtain ⟨left, w, right, hw, hleft, hright⟩ := a
  have hspace : ∀ {c : Char}, isSpace c = true → (c == '{' || c == '}') = false := by
    intro c hc
    simp only [isSpace, Bool.or_eq_true, beq_iff_eq] at hc
    rcases hc with ((rfl | rfl) | rfl) | rfl <;> rfl
  have harrows : w ≠ [] ∧ ∀ c ∈ w, (c == '{' || c == '}') = false := by
    obtain ⟨x, y, rfl, hx, hy⟩ := hw
    have hglyphs : ∀ c ∈ '-' :: glyphs, (c == '{' || c == '}') = false := by simp
    refine ⟨by simp, ?_⟩
    intro c hc
    rcases List.mem_append.mp hc with hc | hc
    · exact hglyphs c (List.mem_cons_of_mem _ (hx c hc))
    · rcases List.mem_cons.mp hc with rfl | hc
      · exact hglyphs _ List.mem_cons_self
      · exact hglyphs c (List.mem_cons_of_mem _ (hy c hc))
  obtain ⟨hne, harrows⟩ := harrows
  have htext : bracedArrows left w right = '{' :: ((left ++ (w ++ right)) ++ ['}']) := by
    simp [bracedArrows]
  rw [htext]
  refine trimBy_between rfl rfl ?_ ?_
  · intro c hc
    cases hleft with
    | nil =>
        obtain ⟨d, w, rfl⟩ := List.exists_cons_of_ne_nil hne
        obtain rfl := Option.some.inj hc
        exact harrows _ List.mem_cons_self
    | space hd _ =>
        obtain rfl := Option.some.inj hc
        exact hspace hd
    | comment _ _ _ =>
        obtain rfl := Option.some.inj hc
        rfl
  · intro c hc
    rcases hright.eq_nil_or_append with rfl | ⟨v, d, rfl, hd⟩
    · rw [List.append_nil, List.getLast?_append_of_ne_nil _ hne] at hc
      exact harrows c (List.mem_of_getLast? hc)
    · rw [← List.append_assoc, ← List.append_assoc, List.getLast?_concat] at hc
      obtain rfl := Option.some.inj hc
      exact hspace hd

theorem first?_append {ms : List (Node Rule)} (hms : ∀ n ∈ ms, n.rule ∉ rules) (hr : r ∈ rules)
    (q : Rule) (t : List Char) :
    (Node.mk q t (ms ++ ns)).first? r = (Node.mk q t ns).first? r := by
  rw [Node.first?, Node.parts, List.find?_append, List.find?_eq_none.mpr, Option.none_or]
  · rfl
  · intro n hn hrule
    exact hms n hn (of_decide_eq_true hrule ▸ hr)

theorem all_append {ms : List (Node Rule)} (hms : ∀ n ∈ ms, n.rule ∉ rules) (hr : r ∈ rules)
    (q : Rule) (t : List Char) : (Node.mk q t (ms ++ ns)).all r = (Node.mk q t ns).all r := by
  rw [Node.all, Node.parts, List.filter_append, List.filter_eq_nil_iff.mpr, List.nil_append]
  · rfl
  · intro n hn hrule
    exact hms n hn (of_decide_eq_true hrule ▸ hr)

theorem has_append {ms : List (Node Rule)} (hms : ∀ n ∈ ms, n.rule ∉ rules) (hr : r ∈ rules)
    (q : Rule) (t : List Char) : (Node.mk q t (ms ++ ns)).has r = (Node.mk q t ns).has r := by
  rw [Node.has, Node.parts, List.any_append, List.any_eq_false.mpr, Bool.false_or]
  · rfl
  · intro n hn hrule
    exact hms n hn (of_decide_eq_true hrule ▸ hr)

theorem arguments?_append {ms : List (Node Rule)} (hms : ∀ n ∈ ms, n.rule ∉ rules) (q : Rule)
    (t : List Char) :
    (Node.mk q t (ms ++ ns)).arguments? = (Node.mk q t ns).arguments? := by
  have hstar : (Node.mk q t (ms ++ ns)).has .star = _ := has_append hms (by decide) q t
  have hparams : (Node.mk q t (ms ++ ns)).first? .params = _ := first?_append hms (by decide) q t
  have harrows : (Node.mk q t (ms ++ ns)).first? .arrows = _ := first?_append hms (by decide) q t
  have hcoords : (Node.mk q t (ms ++ ns)).all .coord = _ := all_append hms (by decide) q t
  have hnumbers : (Node.mk q t (ms ++ ns)).all .argument = _ := all_append hms (by decide) q t
  simp only [Node.arguments?, Node.params, Node.arrows, Node.text?, Node.coords?, hstar, hparams,
    harrows, hcoords, hnumbers]

theorem params_of_forall₂ (h : List.Forall₂ Of os ns) (q : Rule) (t : List Char) :
    (Node.mk q t ns).params = (os.findSome? params?).getD [] := by
  have hsettings : (ns.find? fun n => n.rule = .params).map Node.settings
      = os.findSome? params? := by
    refine find?_of_forall₂ h ?_
    rintro o n ⟨-, hn⟩
    cases o with
    | params es trailing => exact congrArg some hn.symm
    | _ => rfl
  rw [Node.params, Node.first?, Node.parts, hsettings]

theorem arrows_of_forall₂ (h : List.Forall₂ Of os ns) (q : Rule) (t : List Char) :
    (Node.mk q t ns).arrows = os.findSome? arrows? := by
  rw [Node.arrows, Node.text?, Node.first?, Node.parts, Option.map_map]
  refine find?_of_forall₂ h ?_
  rintro o n ⟨-, hn⟩
  cases o with
  | arrows a =>
      have hn : n.text = bracedArrows a.left a.arrows a.right := hn
      simp [arrows?, rule, hn, trimBy_bracedArrows]
  | _ => rfl

theorem coords?_of_forall₂ (h : List.Forall₂ Of os ns) (q : Rule) (t : List Char) :
    (Node.mk q t ns).coords? = some (os.filterMap coord?) := by
  refine mapM_of_forall₂ h ?_ ?_
  · intro o ho
    cases o with
    | coord p => exact ⟨_, rfl⟩
    | _ => cases ho
  · rintro o n ⟨-, hn⟩
    cases o with
    | coord p => exact hn.symm
    | _ => rfl

theorem numbers_of_forall₂ (h : List.Forall₂ Of os ns) (q : Rule) (t : List Char) :
    ((Node.mk q t ns).all .argument).mapM Node.argument? = some (os.filterMap number?) := by
  refine mapM_of_forall₂ h ?_ ?_
  · intro o ho
    cases o with
    | argument m => exact ⟨_, rfl⟩
    | _ => cases ho
  · rintro o n ⟨-, hn⟩
    cases o with
    | argument m => exact hn.symm
    | _ => rfl

/-- The nodes of operands are read as the operands say; other nodes are not looked at. -/
theorem arguments?_of_forall₂ (h : List.Forall₂ Of os ns) {ms : List (Node Rule)}
    (hms : ∀ n ∈ ms, n.rule ∉ rules) (r : Rule) (t : List Char) :
    (Node.mk r t (ms ++ ns)).arguments? = some (arguments os) := by
  have hstar : (Node.mk r t ns).has .star = os.any fun o => o.rule = .star := any_of_forall₂ h .star
  rw [arguments?_append hms, Node.arguments?, hstar, params_of_forall₂ h, arrows_of_forall₂ h,
    coords?_of_forall₂ h, numbers_of_forall₂ h]
  rfl

end Readings

end Operand

end PictureTree
