/-
# `Proofs.Document.TrailingWord` — a word behind a document

A word on a line of its own behind a source is one text item more, and the items
in front of it stay as they are, unless the last one is a name alone: then it
becomes text (`ofSource?_append_word`).  A name asks that no letter follows, but
only behind the blanks; so it sees the word, and is no name any more.  For the name
that ends a picture of the plain form this means that there is no picture, and
often no document: these sources are left out.

The proof compares the two runs item by item.  An item is matched the same, or
it is the last one and is matched to the end in one run and to the word in the
other (`alike_item`), or it is a name alone (`gainsWord_of_alone`).  An item that is
none of these would have to be text which is cut short, and no document ends with
that (`gap_leadingItems_ne_nil`).

    a word behind a source               `ofSource?_append_word`
    a text with a name alone at its end  `endsIn_of_lastIsAlone`
-/
import PictureTree.Proofs.Document.Reading
import PictureTree.Proofs.Document.LoneNames

namespace PictureTree

open PictureTree.Expr Rule Trailer

/-! ## Where an item can only be text -/

section OnlyText

variable {depth : Nat}

/-- In a region that pictures and commands leave, an item is text. -/
theorem run_item_of_region {R : Region Rule} (hR : R.Bounds grammar)
    (hpicture : R.left (.rule .picture) = true) (hcommand : R.left command = true) {s : List Char}
    (hs : R.holds s) : item.run (grammar.apply depth) .loose s = grammar.apply depth .text s := by
  have hpicture' : (Expr.rule Rule.picture).run (grammar.apply depth) .loose s = none :=
    Region.run_eq_none hR hpicture hs
  have hcommand' : command.run (grammar.apply depth) .loose s = none :=
    Region.run_eq_none hR hcommand hs
  exact (run_alt_of_none hpicture').trans (run_alt_of_none hcommand')

theorem run_item_nil : item.run (grammar.apply depth) .loose [] = none := by
  cases hm : item.run (grammar.apply depth) .loose [] with
  | none => rfl
  | some m => exact absurd (consumes_item depth hm) (Nat.not_lt_zero _)

/-- The characters that a text which is cut short is made of. -/
def fragmentChars : List Char :=
  ['\\', 'e', 'n', 'd', 'b', 'g', 'i', '\x7b', ' ', '\t', '\r', '\n']

/-- The texts of these characters.  Every command has others: a block its closing
brace, all others a letter of their names. -/
def fragments : Region Rule :=
  .within fragmentChars.contains (fun _ => false) (fun h => by cases h) fun r =>
    [.picture, .arcName, .curveName, .boxName, .newColorName].contains r || commands.contains r

theorem fragments_bounds : fragments.Bounds grammar := by
  intro r
  cases r <;> decide +kernel

theorem CutShort.holds_fragments {s : List Char} (hs : CutShort s) : fragments.holds s := by
  have hblank : ∀ {b : List Char}, (∀ c ∈ b, blank.test c = true) → fragments.holds b := by
    intro b hb c hc
    exact of_blank (by decide) (hb c hc)
  obtain rfl | ⟨start, hstart, b, b', hb, hb', rfl⟩ := hs
  · intro c hc
    obtain rfl := List.mem_singleton.mp hc
    decide
  · have hletters : ∀ start ∈ [['e', 'n', 'd'], ['b', 'e', 'g', 'i', 'n']],
        start.all fragmentChars.contains = true := by decide
    intro c hc
    simp only [List.mem_cons, List.mem_append] at hc
    rcases hc with rfl | hc | hc | rfl | hc
    · decide
    · exact List.all_eq_true.mp (hletters start hstart) c hc
    · exact hblank hb c hc
    · decide
    · exact hblank hb' c hc

theorem gap_blanks {b s : List Char} (hb : ∀ c ∈ b, blank.test c = true) :
    (gap .loose (b ++ '\x7b' :: s) : Match Rule).rest = '\x7b' :: s := by
  induction b with
  | nil => rfl
  | cons c b ih =>
      have hc : isSpace c = true := of_blank (by decide) (hb c List.mem_cons_self)
      have ih := ih fun c hc => hb c (List.mem_cons_of_mem _ hc)
      simp only [gap] at ih ⊢
      simpa [splitTrivia, hc] using ih

/-- Behind an open brace and blanks there is no item. -/
theorem run_item_brace {b : List Char} (hb : ∀ c ∈ b, blank.test c = true) :
    item.run (grammar.apply depth) .loose ('\x7b' :: b) = none := by
  have hcut : CutShort ('\\' :: (['e', 'n', 'd'] ++ ([] ++ '\x7b' :: b))) :=
    .inr ⟨_, List.mem_cons_self, [], b, by simp, hb, rfl⟩
  have hs : fragments.holds ('\x7b' :: b) :=
    fragments.part (a := ['\\', 'e', 'n', 'd']) (c := []) (by simpa using hcut.holds_fragments)
  rw [run_item_of_region fragments_bounds (by decide) (by decide) hs]
  exact apply_text_brace b

theorem leadingItems_of_none {s : List Char}
    (hs : item.run (grammar.apply depth) .loose (gap .loose s : Match Rule).rest = none) :
    leadingItems depth s = .nothing s :=
  repetitions_of_none hs

theorem leadingItems_of_some {s : List Char} {m : Match Rule}
    (hm : item.run (grammar.apply depth) .loose (gap .loose s : Match Rule).rest = some m) :
    leadingItems depth s = gap .loose s ++ (m ++ leadingItems depth m.rest) :=
  repetitions_of_some (consumes_item depth) hm

/-- No document ends with a text that is cut short. -/
theorem gap_leadingItems_ne_nil {s : List Char}
    (hs : CutShort (gap .loose s : Match Rule).rest) :
    (gap .loose (leadingItems depth s).rest : Match Rule).rest ≠ [] := by
  have hne : (gap .loose s : Match Rule).rest ≠ [] := fun h => by
    rw [h] at hs
    obtain h | ⟨_, _, _, _, _, _, h⟩ := hs <;> cases h
  have hitem : item.run (grammar.apply depth) .loose (gap .loose s : Match Rule).rest
      = grammar.apply depth .text (gap .loose s : Match Rule).rest :=
    run_item_of_region fragments_bounds (by decide) (by decide) hs.holds_fragments
  rcases apply_text_cutShort hs with htext | ⟨m, hm, b, b', hb, hb', hrest⟩
  · rw [leadingItems_of_none (hitem.trans htext)]
    exact hne
  · have hgap : (gap .loose m.rest : Match Rule).rest = '\x7b' :: b' := by
      rw [hrest]
      exact gap_blanks hb
    rw [leadingItems_of_some (hitem.trans hm),
      leadingItems_of_none (by rw [hgap]; exact run_item_brace hb')]
    exact hgap ▸ List.cons_ne_nil _ _

end OnlyText

/-! ## Items with the line -/

/-- Two runs that are tied, or that match the same items to the end and to the word. -/
def Alike (T : Trailer Rule) (x y : Option (Match Rule)) : Prop :=
  Tied T.line x y ∨ ∃ m n, x = some m ∧ y = some n ∧ m.rest = [] ∧ n.rest = T.word ∧
    Item.ofNodes? m.nodes = Item.ofNodes? n.nodes

section Alike

variable {T : Trailer Rule} {depth : Nat} {u : List Char}

theorem Alike.alt {call : Rule → List Char → Option (Match Rule)} {sp : Spacing} {a b : Expr Rule}
    {u u' : List Char} (ha : Alike T (a.run call sp u) (a.run call sp u'))
    (hb : Alike T (b.run call sp u) (b.run call sp u')) :
    Alike T ((Expr.alt a b).run call sp u) ((Expr.alt a b).run call sp u') := by
  rcases ha with htied | ⟨m, n, hm, hn, h⟩
  · rcases run_alt_of_tied (b := b) htied with h | ⟨hx, hy⟩
    · exact .inl h
    · rw [hx, hy]
      exact hb
  · exact .inr ⟨m, n, run_alt_of_some hm, run_alt_of_some hn, h⟩

variable {ended : Bool} (hbare : (survey ended).bare ⊆ T.bare)
  (habsent : (survey ended).absent ⊆ T.absent) (hlost : T.lost = Rule.lost)
include hbare habsent hlost

/-- A command matches the same item, whether or not the line is there, but at a
name alone. -/
theorem alike_command {r : Rule} (hr : r ∈ commands) (hu : T.Plain u)
    (hname : startsAsEnd loneCommands u = false) :
    Alike T (grammar.apply depth r u) (grammar.apply depth r (u ++ T.line)) := by
  cases depth with
  | zero => exact .inl tied_none
  | succ depth =>
      obtain ⟨htext, hkind, -, hgrade⟩ := graded_of_mem_commands ended r hr
      have hmeets : T.Meets .loose ((grammar.body r).run (grammar.apply depth) .loose)
          ((survey ended).gradeOf grammar.kind .loose (grammar.body r)) :=
        meets_gradeOf_survey hbare habsent hlost depth .loose _
      have houtcome : Tied T.line ((grammar.body r).run (grammar.apply depth) .loose u)
            ((grammar.body r).run (grammar.apply depth) .loose (u ++ T.line)) ∨
          T.Ends ((grammar.body r).run (grammar.apply depth) .loose u)
            ((grammar.body r).run (grammar.apply depth) .loose (u ++ T.line)) := by
        rcases hgrade with hgrade | hgrade | ⟨t, ht, hgrade⟩
        · exact (hmeets.exact (.inl hgrade)).outcome hu
        · exact (hmeets.exact (.inr hgrade)).outcome hu
        · rw [hgrade] at hmeets
          exact ExactBut.outcome hmeets hu (startsAsEnd_eq_false hname ht)
      rw [Grammar.apply, Grammar.apply, hkind]
      rcases houtcome with h | ⟨m, n, hm, hn, hend, hword, hnodes⟩
      · refine .inl ?_
        rw [Tied] at h ⊢
        rw [RuleKind.spacing, h]
        cases (grammar.body r).run (grammar.apply depth) .loose u <;> rfl
      · refine .inr ⟨_, _, congrArg (Option.map _) hm, congrArg (Option.map _) hn, hend, hword, ?_⟩
        simp only [Match.wrap, hnodes, Item.ofNodes?, ofNode?_eq htext m.taken n.taken]

/-- An item that is no name alone, unless it is cut short. -/
theorem alike_item (hu : T.Plain u) (hname : startsAsEnd loneCommands u = false)
    (hcut : ¬ CutShort u) : Alike T (item.run (grammar.apply depth) .loose u)
      (item.run (grammar.apply depth) .loose (u ++ T.line)) := by
  have hpicture : T.Firm (grammar.apply depth .picture) :=
    meets_grade hbare habsent hlost depth .picture
  have htext : Tied T.line (grammar.apply depth .text u)
      (grammar.apply depth .text (u ++ T.line)) := by
    cases depth with
    | zero => exact tied_none
    | succ depth =>
        have h : Tied T.line ((expr .text).run (grammar.apply depth) .tight u)
            ((expr .text).run (grammar.apply depth) .tight (u ++ T.line)) :=
          tied_text hlost hu hcut
        rw [Tied] at h ⊢
        rw [apply_text_succ, apply_text_succ, h]
        cases (expr .text).run (grammar.apply depth) .tight u <;> rfl
  have hcommand : Alike T (command.run (grammar.apply depth) .loose u)
      (command.run (grammar.apply depth) .loose (u ++ T.line)) := by
    refine run_alts_of_closed (.inl tied_none) Alike.alt fun e he => ?_
    obtain ⟨r, hr, rfl⟩ := List.mem_map.mp he
    exact alike_command hbare habsent hlost hr hu hname
  exact Alike.alt (.inl (hpicture.tied hu)) (Alike.alt hcommand (.inl htext))

end Alike

/-! ## The last item -/

/-- Whether the last of some nodes is one of some names, alone. -/
def lastIsAlone (names : List (List Char)) (ns : List (Node Rule)) : Bool :=
  ns.getLast?.any fun n => startsAsEnd names n.text

/-- Whether the last item of a source is the name of a command, alone. -/
def endsAlone (source : String) : Bool := lastIsAlone loneCommands (itemsOf source.toList).nodes

theorem lastIsAlone_append {names : List (List Char)} {ks ms : List (Node Rule)}
    (h : ms = [] → lastIsAlone names ks = false) :
    lastIsAlone names (ks ++ ms) = lastIsAlone names ms := by
  by_cases hms : ms = []
  · rw [hms, List.append_nil]
    exact h hms
  · simp only [lastIsAlone, List.getLast?_append_of_ne_nil _ hms]

section Last

variable {names : List (List Char)} {depth : Nat} {s : List Char} {m : Match Rule}

/-- An item is one node, with the text that it takes. -/
theorem exists_node_of_item (hm : item.run (grammar.apply depth) .loose s = some m) :
    ∃ n, m.nodes = [n] ∧ n.text = m.taken := by
  rw [run_item] at hm
  obtain ⟨e, he, hm⟩ := exists_of_run_alts hm
  obtain ⟨r, -, rfl⟩ := List.mem_map.mp he
  cases depth with
  | zero => cases hm
  | succ depth =>
      obtain ⟨k, -, rfl⟩ := Option.map_eq_some_iff.mp hm
      exact ⟨_, rfl, rfl⟩

theorem lastIsAlone_item (hm : item.run (grammar.apply depth) .loose s = some m) :
    lastIsAlone names m.nodes = startsAsEnd names m.taken := by
  obtain ⟨n, hn, htext⟩ := exists_node_of_item hm
  rw [hn, ← htext]
  rfl

/-- With only blanks behind it, an item is a name alone if there is one where it starts. -/
theorem lastIsAlone_of_gap_eq_nil (hm : item.run (grammar.apply depth) .loose s = some m)
    (hrest : (gap .loose m.rest : Match Rule).rest = []) (h : lastIsAlone names m.nodes = true) :
    startsAsEnd names s = true := by
  rw [lastIsAlone_item hm] at h
  rw [← Expr.split_run (grammar.split_apply depth) .loose item hm]
  exact startsAsEnd_append_of_eq_nil h hrest

theorem lastIsAlone_eq_false (hm : item.run (grammar.apply depth) .loose s = some m)
    (hrest : (gap .loose m.rest : Match Rule).rest = []) (hs : startsAsEnd names s = false) :
    lastIsAlone names m.nodes = false := by
  refine Bool.eq_false_iff.mpr fun h => ?_
  rw [lastIsAlone_of_gap_eq_nil hm hrest h] at hs
  cases hs

theorem leadingItems_of_gap_nil (hs : (gap .loose s : Match Rule).rest = []) :
    leadingItems depth s = .nothing s :=
  leadingItems_of_none (by rw [hs]; exact run_item_nil)

/-- Behind the items of a text there is an item, or nothing but blanks. -/
theorem gap_of_leadingItems_nil
    (hend : (gap .loose (leadingItems depth s).rest : Match Rule).rest = [])
    (h : (leadingItems depth s).nodes = []) : (gap .loose s : Match Rule).rest = [] := by
  cases hm : item.run (grammar.apply depth) .loose (gap .loose s : Match Rule).rest with
  | none =>
      rw [leadingItems_of_none hm] at hend
      exact hend
  | some m =>
      obtain ⟨n, hn, -⟩ := exists_node_of_item hm
      rw [leadingItems_of_some hm] at h
      simp [hn] at h

/-- A text whose last item is a name alone ends with this name. -/
theorem endsIn_of_lastIsAlone
    (hend : (gap .loose (leadingItems depth s).rest : Match Rule).rest = [])
    (h : lastIsAlone names (leadingItems depth s).nodes = true) : endsIn names s = true := by
  induction hn : s.length using Nat.strongRecOn generalizing s with
  | ind n ih =>
      cases hm : item.run (grammar.apply depth) .loose (gap .loose s : Match Rule).rest with
      | none =>
          rw [leadingItems_of_none hm] at h
          cases h
      | some m =>
          have hsuffix : m.rest <:+ s := List.IsSuffix.trans
            ⟨_, Expr.split_run (grammar.split_apply _) .loose item hm⟩ (gap_suffix .loose s)
          rw [leadingItems_of_some hm] at hend h
          simp only [Match.nodes_append, nodes_gap, List.nil_append] at h
          cases hs : endsIn names s with
          | true => rfl
          | false =>
              by_cases hlast : (leadingItems depth m.rest).nodes = []
              · rw [hlast, List.append_nil] at h
                have hstart := lastIsAlone_of_gap_eq_nil hm (gap_of_leadingItems_nil hend hlast) h
                rw [startsAsEnd_of_endsIn (endsIn_of_suffix hs (gap_suffix .loose s))] at hstart
                cases hstart
              · rw [lastIsAlone_append fun h => absurd h hlast] at h
                have hrest := ih _ (hn ▸ (consumes_item depth).length_rest_lt hm) hend h rfl
                rw [endsIn_of_suffix hs hsuffix] at hrest
                cases hrest

end Last

/-! ## The word behind the items -/

theorem leadingItems_of_gap_word {depth : Nat} {s word : List Char} (hne : word ≠ [])
    (hword : ∀ c ∈ word, c.isAlpha = true) (hs : (gap .loose s : Match Rule).rest = word) :
    (leadingItems (depth + 1) s).rest = [] ∧
      (leadingItems (depth + 1) s).nodes = [.mk .text word []] := by
  have hitem : item.run (grammar.apply (depth + 1)) .loose (gap .loose s : Match Rule).rest
      = some ⟨word, [], [.mk .text word []]⟩ := by
    rw [hs, run_item_of_region letters_bounds (by decide) (by decide) hword]
    exact apply_text_word hne hword
  rw [leadingItems_of_some hitem, leadingItems_of_gap_nil rfl]
  exact ⟨rfl, by simp [nodes_gap]⟩

/-- The second match reaches the end, and has the items of the first one and the
word; but if the last of them is a name alone, it has this name as text. -/
structure GainsWord (T : Trailer Rule) (m n : Match Rule) : Prop where
  rest : n.rest = []
  items : ∀ {items}, Item.ofNodes? m.nodes = some items →
    lastIsAlone loneCommands m.nodes = false →
      Item.ofNodes? n.nodes = some (items ++ [.command (.text (String.ofList T.word))])
  alone : ∀ {items}, Item.ofNodes? m.nodes = some items →
    lastIsAlone loneCommands m.nodes = true →
      ∃ name ∈ loneCommands, lastIsAlone [name] m.nodes = true ∧
        Item.ofNodes? n.nodes = some (items.dropLast ++
          [.command (.text (String.ofList name)), .command (.text (String.ofList T.word))])

section GainsWord

variable {T : Trailer Rule}

/-- With the same items in front of both matches. -/
theorem GainsWord.behind {m n k l : Match Rule} (h : GainsWord T m n) (s s' : List Char)
    (hkl : Item.ofNodes? k.nodes = Item.ofNodes? l.nodes)
    (hlast : m.nodes = [] → lastIsAlone loneCommands k.nodes = false) :
    GainsWord T (gap .loose s ++ (k ++ m)) (gap .loose s' ++ (l ++ n)) := by
  have hitems : ∀ {items}, Item.ofNodes? (k.nodes ++ m.nodes) = some items →
      ∃ xs ys, Item.ofNodes? m.nodes = some ys ∧ items = xs ++ ys ∧
        ∀ {zs}, Item.ofNodes? n.nodes = some zs →
          Item.ofNodes? (l.nodes ++ n.nodes) = some (xs ++ zs) := by
    intro items hitems
    rw [ofNodes?_append] at hitems
    obtain ⟨xs, hxs, hitems⟩ := Option.bind_eq_some_iff.mp hitems
    obtain ⟨ys, hys, rfl⟩ := Option.map_eq_some_iff.mp hitems
    refine ⟨xs, ys, hys, rfl, fun hzs => ?_⟩
    rw [ofNodes?_append, ← hkl, hxs, hzs]
    rfl
  have hnodes : (gap .loose s ++ (k ++ m)).nodes = k.nodes ++ m.nodes := by simp [nodes_gap]
  have hnodes' : (gap .loose s' ++ (l ++ n)).nodes = l.nodes ++ n.nodes := by simp [nodes_gap]
  refine ⟨h.rest, ?_, ?_⟩ <;> rw [hnodes, hnodes', lastIsAlone_append hlast]
  · intro items hsome hfalse
    obtain ⟨xs, ys, hys, rfl, hzs⟩ := hitems hsome
    rw [hzs (h.items hys hfalse), List.append_assoc]
  · intro items hsome htrue
    obtain ⟨xs, ys, hys, rfl, hzs⟩ := hitems hsome
    have hne : ys ≠ [] := by
      rintro rfl
      rw [eq_nil_of_ofNodes? hys] at htrue
      cases htrue
    obtain ⟨name, hname, hlast', hn⟩ := h.alone hys htrue
    refine ⟨name, hname, ?_, ?_⟩
    · rw [lastIsAlone_append fun h => ?_]
      · exact hlast'
      · rw [h] at hlast'
        cases hlast'
    · rw [hzs hn, List.dropLast_append_of_ne_nil hne, List.append_assoc]

theorem gainsWord_of_gap (hne : T.word ≠ []) (depth : Nat) {s s' : List Char}
    (hs : (gap .loose s : Match Rule).rest = []) (hs' : (gap .loose s' : Match Rule).rest = T.word) :
    GainsWord T (leadingItems (depth + 1) s) (leadingItems (depth + 1) s') := by
  obtain ⟨hrest, hnodes⟩ : (leadingItems (depth + 1) s').rest = [] ∧ _ :=
    leadingItems_of_gap_word hne T.isAlpha_word hs'
  rw [leadingItems_of_gap_nil hs]
  refine ⟨hrest, ?_, fun _ h => by cases h⟩
  rintro items hsome -
  obtain rfl : [] = items := Option.some.inj hsome
  rw [hnodes, ofNodes?_word]
  rfl

theorem commands_subset : Rule.picture :: commands ⊆ Rule.picture :: (pathCommands ++ commands) := by
  decide

/-- At a name with only blanks behind it there is one item, and it is this name alone. -/
theorem exists_item_of_alone (depth : Nat) {t x : List Char} (ht : t ∈ loneCommands)
    (hx : (gap .loose x : Match Rule).rest = []) :
    ∃ m, item.run (grammar.apply (depth + 1)) .loose (t ++ x) = some m ∧
      (gap .loose m.rest : Match Rule).rest = [] ∧
        ∀ {names : List (List Char)}, t ∈ names → lastIsAlone names m.nodes = true := by
  obtain ⟨m, hm, hor⟩ := run_choice_lone commands_subset (List.mem_cons_of_mem _ ht)
    (.of_gap_eq_nil hx) depth
  rw [← run_item] at hm
  refine ⟨m, hm, ?_, fun ht => ?_⟩
  · rcases hor with ⟨-, h⟩ | rfl
    · rw [h, gap_nil]
    · exact hx
  · rw [lastIsAlone_item hm]
    rcases hor with ⟨-, h⟩ | rfl
    · have hsplit := Expr.split_run (grammar.split_apply _) .loose item hm
      rw [h, List.append_nil] at hsplit
      rw [hsplit]
      exact startsAsEnd_append ht hx
    · exact startsAsEnd_iff.mpr ⟨t, ht, [], (List.append_nil t).symm, rfl⟩

/-- At a name alone the first run takes all there is, and the second one the name as text. -/
theorem gainsWord_of_alone (hne : T.word ≠ []) (depth : Nat) {s s' t x : List Char}
    (ht : t ∈ loneCommands) (hx : (gap .loose x : Match Rule).rest = [])
    (hs : (gap .loose s : Match Rule).rest = t ++ x)
    (hs' : (gap .loose s' : Match Rule).rest = t ++ x ++ T.line) :
    GainsWord T (leadingItems (depth + 1) s) (leadingItems (depth + 1) s') := by
  have hgap : (gap .loose (x ++ T.line) : Match Rule).rest = T.word := gap_line_of_nil hx
  obtain ⟨m, hm, hmrest, halone⟩ := exists_item_of_alone depth ht hx
  obtain ⟨k, hk, ⟨hnil, -⟩ | rfl⟩ := run_choice_lone commands_subset (List.mem_cons_of_mem _ ht)
    (.append_line (T := T) hx) depth
  · exact absurd (hgap.symm.trans hnil) hne
  rw [← hs] at hm
  rw [← run_item, ← List.append_assoc, ← hs'] at hk
  obtain ⟨hrest, hnodes⟩ : (leadingItems (depth + 1) (x ++ T.line)).rest = [] ∧ _ :=
    leadingItems_of_gap_word hne T.isAlpha_word hgap
  have hfirst : (leadingItems (depth + 1) s).nodes = m.nodes := by
    rw [leadingItems_of_some hm, leadingItems_of_gap_nil hmrest]
    simp [nodes_gap]
  refine ⟨?_, ?_, ?_⟩ <;> rw [leadingItems_of_some hk]
  · exact hrest
  · intro items _ hfalse
    rw [hfirst, halone ht] at hfalse
    cases hfalse
  · intro items hsome _
    obtain ⟨n, hn, -⟩ := exists_node_of_item hm
    rw [hfirst, hn] at hsome
    obtain ⟨i, -, hi⟩ := Option.bind_eq_some_iff.mp hsome
    obtain rfl : [i] = items := Option.some.inj hi
    refine ⟨t, ht, hfirst.symm ▸ halone List.mem_cons_self, ?_⟩
    simp [nodes_gap, hnodes, Item.ofNodes?, Item.ofNode?, Node.isScope, Node.command?, Node.rule,
      Node.text]

end GainsWord

section Behind

variable {T : Trailer Rule} {ended : Bool} (hbare : (survey ended).bare ⊆ T.bare)
  (habsent : (survey ended).absent ⊆ T.absent) (hlost : T.lost = Rule.lost) (hne : T.word ≠ [])
  {depth : Nat} {u : List Char} (hu : T.Plain u)
  (hend : (gap .loose (leadingItems (depth + 1) u).rest : Match Rule).rest = [])
include hbare habsent hlost hne hu hend

/-- In front of an item that is no name alone, if the word is one item more behind it. -/
theorem gainsWord_of_item (hstart : (gap .loose u : Match Rule).rest ≠ [])
    (hgap : (gap .loose (u ++ T.line) : Match Rule).rest
      = (gap .loose u : Match Rule).rest ++ T.line)
    (hname : startsAsEnd loneCommands (gap .loose u : Match Rule).rest = false)
    (ih : ∀ {v}, v <:+ u → v.length < u.length →
      (gap .loose (leadingItems (depth + 1) v).rest : Match Rule).rest = [] →
        GainsWord T (leadingItems (depth + 1) v) (leadingItems (depth + 1) (v ++ T.line))) :
    GainsWord T (leadingItems (depth + 1) u) (leadingItems (depth + 1) (u ++ T.line)) := by
  have hplain : T.Plain (gap .loose u : Match Rule).rest := hu.of_suffix (gap_suffix .loose u)
  have hcut : ¬ CutShort (gap .loose u : Match Rule).rest := fun h =>
    gap_leadingItems_ne_nil h hend
  have halike : Alike T (item.run (grammar.apply (depth + 1)) .loose (gap .loose u : Match Rule).rest)
      (item.run (grammar.apply (depth + 1)) .loose
        ((gap .loose u : Match Rule).rest ++ T.line)) :=
    alike_item hbare habsent hlost hplain hname hcut
  rcases halike with h | ⟨m, k, hm, hk, hmrest, hkrest, hnodes⟩
  · cases hm : item.run (grammar.apply (depth + 1)) .loose (gap .loose u : Match Rule).rest with
    | none =>
        rw [leadingItems_of_none hm] at hend
        exact absurd hend hstart
    | some m =>
        rw [Tied, hm, ← hgap] at h
        have hsuffix : m.rest <:+ u := List.IsSuffix.trans
          ⟨_, Expr.split_run (grammar.split_apply _) .loose item hm⟩ (gap_suffix .loose u)
        have hlength : m.rest.length < u.length := (consumes_item (depth + 1)).length_rest_lt hm
        rw [leadingItems_of_some hm] at hend
        rw [leadingItems_of_some hm, leadingItems_of_some h]
        exact (ih hsuffix hlength hend).behind _ _ rfl fun h =>
          lastIsAlone_eq_false hm (gap_of_leadingItems_nil hend h) hname
  -- the last item ends at the word
  · rw [← hgap] at hk
    rw [leadingItems_of_some hm, leadingItems_of_some hk, hmrest, hkrest]
    refine (gainsWord_of_gap hne depth rfl (gap_word .loose)).behind _ _ hnodes fun _ => ?_
    exact lastIsAlone_eq_false hm (by rw [hmrest, gap_nil]) hname

/-- Behind leading items that reach the end, the word is one item more. -/
theorem leadingItems_append_line :
    GainsWord T (leadingItems (depth + 1) u) (leadingItems (depth + 1) (u ++ T.line)) := by
  induction hn : u.length using Nat.strongRecOn generalizing u with
  | ind n ih =>
      rcases gap_append_line (T := T) .loose u with ⟨hgap, hrest⟩ | ⟨-, hnil, hword⟩
      · have hgap' : (gap .loose (u ++ T.line) : Match Rule).rest
            = (gap .loose u : Match Rule).rest ++ T.line := by
          rw [hgap]
          rfl
        cases hname : startsAsEnd loneCommands (gap .loose u : Match Rule).rest with
        | true =>
            obtain ⟨t, ht, x, hx, hxrest⟩ := startsAsEnd_iff.mp hname
            exact gainsWord_of_alone hne depth ht hxrest hx (hx ▸ hgap')
        | false =>
            refine gainsWord_of_item hbare habsent hlost hne hu hend (hrest rfl) hgap' hname ?_
            intro v hsuffix hlength hend
            exact ih _ (hn ▸ hlength) (hu.of_suffix hsuffix) hend rfl
      · exact gainsWord_of_gap hne depth hnil hword

end Behind

/-- A word sees no picture of the plain form: the source does not end with its
end, or it does not hold its start. -/
theorem exists_plain {source : String}
    (hpicture : endsIn [pictureEnd] source.toList = true → ¬ pictureStart <:+: source.toList)
    {word : List Char} (hword : ∀ c ∈ word, c.isAlpha = true) :
    ∃ ended, (wordTrailer ended word hword).Plain source.toList := by
  cases hend : endsIn [pictureEnd] source.toList with
  | false => exact ⟨false, hend, fun _ h => by cases h⟩
  | true =>
      refine ⟨true, ?_, fun t ht => ?_⟩
      · have hnone : ∀ u, endsIn [] u = false := by
          intro u
          induction u with
          | nil => rfl
          | cons c u ih => exact ih
        exact hnone _
      · obtain rfl := List.mem_singleton.mp ht
        exact hpicture hend

/-- A word on a line of its own is one item more, and changes nothing in front of
it, but for a name alone: this becomes text.  A source that holds a picture of the
plain form must not end in the name of a picture's end. -/
theorem ofSource?_append_word {source word : String} {items : List Item} (hne : word ≠ "")
    (hword : ∀ c ∈ word.toList, c.isAlpha = true)
    (hpicture : endsIn [pictureEnd] source.toList = true → ¬ pictureStart <:+: source.toList)
    (hsource : Item.ofSource? source = some items) :
    (endsAlone source = false →
      Item.ofSource? (source ++ "\n" ++ word) = some (items ++ [.command (.text word)])) ∧
    (endsAlone source = true →
      ∃ name ∈ loneCommands, endsIn [name] source.toList = true ∧
        Item.ofSource? (source ++ "\n" ++ word) = some (items.dropLast ++
          [.command (.text (String.ofList name)), .command (.text word)])) := by
  have htext : (source ++ "\n" ++ word).toList = source.toList ++ '\n' :: word.toList := by
    simp
  obtain ⟨depth, hdepth, hdepth'⟩ : ∃ depth, 4 * (source.toList.length + 1) ≤ depth + 1 ∧
      4 * ((source ++ "\n" ++ word).toList.length + 1) ≤ depth + 1 := by
    refine ⟨4 * ((source ++ "\n" ++ word).toList.length + 1), ?_, by omega⟩
    rw [htext, List.length_append]
    omega
  have hleading := leadingItems_eq_itemsOf hdepth
  rw [ofSource?_eq (Nat.le_succ_of_le hdepth)] at hsource
  split at hsource
  · next hrest =>
      obtain ⟨ended, hplain⟩ := exists_plain hpicture hword
      obtain ⟨hrest', hitems, halone⟩ := leadingItems_append_line
        (List.Subset.refl (survey ended).bare) (List.Subset.refl (survey ended).absent) rfl
        (by simpa [wordTrailer] using hne) hplain hrest
      have hline : (wordTrailer ended word.toList hword).line = '\n' :: word.toList := rfl
      have hnil : (gap .loose [] : Match Rule).rest = [] := rfl
      rw [hline, ← htext] at hrest' hitems halone
      rw [endsAlone, ← hleading, ofSource?_eq (Nat.le_succ_of_le hdepth'), hrest', if_pos hnil]
      refine ⟨fun h => ?_, fun h => ?_⟩
      · rw [hitems hsource h]
        simp [wordTrailer]
      · obtain ⟨name, hname, hlast, hn⟩ := halone hsource h
        exact ⟨name, hname, endsIn_of_lastIsAlone hrest hlast, by rw [hn]; simp [wordTrailer]⟩
  · cases hsource

theorem ofSource?_append_word_starred_dot :
    "foo" ≠ "" ∧ (∀ c ∈ "foo".toList, c.isAlpha = true) ∧
      (endsIn [pictureEnd] "\\psdot*%\\psdot".toList = true →
        ¬ pictureStart <:+: "\\psdot*%\\psdot".toList) ∧
      Item.ofSource? "\\psdot*%\\psdot" = some [.command (.shape .dot ⟨true, [], none, [], []⟩)] ∧
      endsAlone "\\psdot*%\\psdot" = false ∧
      Item.ofSource? ("\\psdot*%\\psdot" ++ "\n" ++ "foo")
        = some ([.command (.shape .dot ⟨true, [], none, [], []⟩)] ++ [.command (.text "foo")]) := by
  have hne : "foo" ≠ "" := by decide
  have hword : ∀ c ∈ "foo".toList, c.isAlpha = true := List.all_eq_true.mp (by decide)
  have hpicture : endsIn [pictureEnd] "\\psdot*%\\psdot".toList = true →
      ¬ pictureStart <:+: "\\psdot*%\\psdot".toList := by
    have hend : endsIn [pictureEnd] "\\psdot*%\\psdot".toList = false := by decide
    intro h
    rw [hend] at h
    cases h
  have hsource : Item.ofSource? "\\psdot*%\\psdot"
      = some [.command (.shape .dot ⟨true, [], none, [], []⟩)] := by cbv
  have halone : endsAlone "\\psdot*%\\psdot" = false := by cbv
  exact ⟨hne, hword, hpicture, hsource, halone,
    (ofSource?_append_word hne hword hpicture hsource).1 halone⟩

/-- A name that stands alone is a command at the end, and text in front of a word. -/
theorem ofSource?_lone_dot_before_word :
    Item.ofSource? "\\psdot" = some [.command (.shape .dot ⟨false, [], none, [], []⟩)] ∧
      Item.ofSource? ("\\psdot" ++ "\n" ++ "foo")
        = some [.command (.text "\\psdot"), .command (.text "foo")] := by
  constructor
  · cbv
  · cbv

/-- A picture whose end becomes text is no picture, and no document is left. -/
example : Item.ofSource? "\\pspicture\\endpspicture" = some [.scope (.picture false [] []) []] ∧
    Item.ofSource? ("\\pspicture\\endpspicture" ++ "\n" ++ "foo") = none := by
  constructor
  · cbv
  · cbv

/-- Nor is one left of some sources without pictures: what the percent sign makes a comment
here is, with the word behind it, the end of a bracket and the body of a picture. -/
example :
    let source := "\\pspicture[a=b%]\x7b" ++
      "\\pspicture[a=\x7b\\\x7b\x7d\x7d\\endpspicture+]\\endpspicture"
    Item.ofSource? source = some [.command (.text "\\pspicture"), .command (.text "[a=b")] ∧
      Item.ofSource? (source ++ "\n" ++ "foo") = none := by
  constructor
  · cbv
  · cbv

end PictureTree
