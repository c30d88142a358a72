/-
# `Proofs.Document.Groups` — the text of a box, and the same text as a group

A group of braces is read by two rules.  As a block it holds items, in which a
macro may be a backslash and a brace and in which comments are skipped.  As the
text of a box it is braced text, in which a brace is a brace.  So the two may end
at different places, and what braced text leaves must be a document of its own:

    a balanced group at the start   the box, and the source behind the group
    no balanced group               the name of the box as text, and the block

Where braces are plain both rules end at the same brace.
-/
import PictureTree.Proofs.Document.Balanced

namespace PictureTree

open PictureTree.Expr Rule Trailer

/-- Behind a balanced group at the start of a text stands a source with items. -/
def LeavesDocument (s : List Char) : Prop :=
  ∀ t u, s = '{' :: (t ++ '}' :: u) → Balanced t → (Item.ofSource? (String.ofList u)).isSome = true

/-! ## Boxes -/

section Boxes

variable {s t u : List Char}

theorem run_star?_opening (s : List Char) :
    star?.run grammar.start? .loose ('{' :: s) = some (.nothing ('{' :: s)) := by
  have hstar : (grammar.openings 1 .star).any
      (fun os => os.all fun o => o.text.head? = some '*') = true := by decide
  exact run_opt_of_none (Grammar.start?_eq_none_of_head hstar (by simp))

theorem run_params?_opening (s : List Char) :
    params?.run grammar.start? .loose ('{' :: s) = some (.nothing ('{' :: s)) := by
  have hparams : (grammar.openings 1 .params).any
      (fun os => os.all fun o => o.text.head? = some '[') = true := by decide
  exact run_opt_of_none (Grammar.start?_eq_none_of_head hparams (by simp))

/-- The name of a framed box, with its text in braces behind it. -/
theorem run_framedBox (s : List Char) :
    (expr .framedBox).run grammar.start? .loose ("\\psframebox".toList ++ '{' :: s)
      = (grammar.start? .bracedText ('{' :: s)).map
          (⟨"\\psframebox".toList, '{' :: s, [.mk .boxName "\\psframebox".toList []]⟩ ++ ·) := by
  have hname : (Expr.rule .boxName).run grammar.start? .loose ("\\psframebox".toList ++ '{' :: s)
      = some ⟨"\\psframebox".toList, '{' :: s, [.mk .boxName "\\psframebox".toList []]⟩ := by
    have hrun : (expr .boxName).run grammar.start? .tight ("\\psframebox".toList ++ '{' :: s)
        = some ⟨"\\psframebox".toList, '{' :: s, []⟩ := rfl
    have hspacing : Rule.boxName.kind.spacing = .tight := rfl
    rw [Expr.run, start?_eq_run, hspacing, hrun]
    rfl
  have hrest : (seqs [star?, params?, .rule .bracedText]).run grammar.start? .loose ('{' :: s)
      = grammar.start? .bracedText ('{' :: s) :=
    (run_seq_of_nothing (run_star?_opening s) rfl).trans
      (run_seq_of_nothing (run_params?_opening s) rfl)
  have hbody : expr .framedBox
      = .seq (.rule .boxName) (seqs [star?, params?, .rule .bracedText]) := rfl
  rw [hbody, run_seq_of_isSolid hname rfl rfl, hrest]

theorem isName_framedBox : IsName "\\psframebox".toList where
  backslash := rfl
  letters := List.all_eq_true.mp (by decide)
  ne_backslash := by decide

theorem hasName_framedBox : Rule.framedBox.hasName "\\psframebox".toList = true := by
  decide +kernel

theorem start?_framedBox (s : List Char) :
    grammar.start? .framedBox ("\\psframebox".toList ++ '{' :: s)
      = (grammar.start? .bracedText ('{' :: s)).map fun m =>
          ⟨"\\psframebox".toList ++ m.taken, m.rest, [.mk .framedBox ("\\psframebox".toList ++ m.taken)
            (.mk .boxName "\\psframebox".toList [] :: m.nodes)]⟩ := by
  have hspacing : Rule.framedBox.kind.spacing = .loose := rfl
  rw [start?_eq_run, hspacing, run_framedBox, Option.map_map]
  rfl

theorem run_item_framedBox (s : List Char) :
    item.run grammar.start? .loose (gap .loose ("\\psframebox".toList ++ '{' :: s) : Match Rule).rest
      = (grammar.start? .framedBox ("\\psframebox".toList ++ '{' :: s) <|>
          grammar.start? .text ("\\psframebox".toList ++ '{' :: s)) := by
  have hgap : (gap .loose ("\\psframebox".toList ++ '{' :: s) : Match Rule).rest
      = "\\psframebox".toList ++ '{' :: s := rfl
  have hrest : ∀ c ∈ ('{' :: s).head?, c.isAlpha = false := by
    intro c hc
    obtain rfl := Option.some.inj hc
    rfl
  rw [hgap]
  exact run_item_of_name isName_framedBox hrest (by decide) hasName_framedBox

/-- A framed box takes the balanced group behind its name. -/
theorem ofSource?_framedBox {source rest : String} (ht : Balanced t)
    (hsource : source.toList = "\\psframebox".toList ++ '{' :: (t ++ '}' :: rest.toList)) :
    Item.ofSource? source = (Item.ofSource? rest).map
      ([.command (.framedBox "psframebox" (Text.trimmed t))] ++ ·) := by
  have hstart := start?_framedBox (t ++ '}' :: rest.toList)
  rw [start?_bracedText ht, Option.map_some] at hstart
  have hitem := run_item_framedBox (t ++ '}' :: rest.toList)
  rw [hstart, ← hsource] at hitem
  refine ofSource?_of_item hitem rfl ?_
  have hunbrace : Text.unbrace ('{' :: (t ++ ['}'])) = t := by simp [Text.unbrace]
  simp [Item.ofNodes?, Item.ofNode?, Node.isScope, Node.command?, Node.rule, Node.text?,
    Node.first?, Node.parts, Node.text, Node.bracedText?, hunbrace]
  rfl

/-- Without a balanced group behind it, the name of a framed box is text. -/
theorem ofSource?_framedBox_of_no_group {source rest : String}
    (hno : ∀ t u, s = t ++ '}' :: u → ¬ Balanced t) (hrest : rest.toList = '{' :: s)
    (hsource : source.toList = "\\psframebox".toList ++ rest.toList) :
    Item.ofSource? source = (Item.ofSource? rest).map
      ([.command (.text "\\psframebox")] ++ ·) := by
  have hgroup : grammar.start? .bracedText ('{' :: s) = none := start?_bracedText_eq_none hno
  have hstart := start?_framedBox s
  rw [hgroup, Option.map_none] at hstart
  have htext : grammar.start? .text ("\\psframebox".toList ++ '{' :: s)
      = some ⟨"\\psframebox".toList, '{' :: s, [.mk .text "\\psframebox".toList []]⟩ :=
    start?_text_of_name isName_framedBox rfl (by decide) (by decide) (by decide)
  have hitem := run_item_framedBox s
  rw [hstart, htext, ← hrest, ← hsource] at hitem
  exact ofSource?_of_item hitem rfl (ofNodes?_word _)

/-! ## Coloured text -/

theorem start?_colorSpec_red (s : List Char) :
    grammar.start? .colorSpec ("\x7bred\x7d".toList ++ s) = some ⟨"\x7bred\x7d".toList, s,
      [.mk .colorSpec "\x7bred\x7d".toList [.mk .colorValues "red".toList []]]⟩ := by
  have hvalues : (Expr.rule .colorValues).run grammar.start? .loose ("red".toList ++ '}' :: s)
      = some ⟨"red".toList, '}' :: s, [.mk .colorValues "red".toList []]⟩ := by
    have hrun : (expr .colorValues).run grammar.start? .tight ("red".toList ++ '}' :: s)
        = some ⟨"red".toList, '}' :: s, []⟩ :=
      run_star_one grammar.start? _ _
    have hspacing : Rule.colorValues.kind.spacing = .tight := rfl
    rw [Expr.run, start?_eq_run, hspacing, hrun]
    rfl
  have hopening : (Expr.word "\x7b").run grammar.start? .loose ("\x7bred\x7d".toList ++ s)
      = some ⟨['{'], "red".toList ++ '}' :: s, []⟩ := rfl
  have hclosing : (Expr.word "\x7d").run grammar.start? .loose ('}' :: s)
      = some ⟨['}'], s, []⟩ := rfl
  have hmodel : (Expr.opt (seqs [word "[", .rule .colorModel, word "]"])).run grammar.start? .loose
      ("\x7bred\x7d".toList ++ s) = some (.nothing ("\x7bred\x7d".toList ++ s)) := rfl
  have hrun : (expr .colorSpec).run grammar.start? .loose ("\x7bred\x7d".toList ++ s) = some _ :=
    run_seq_join hmodel (run_seq_join hopening (run_seq_join hvalues hclosing))
  have hspacing : Rule.colorSpec.kind.spacing = .loose := rfl
  rw [start?_eq_run, hspacing, hrun]
  rfl

theorem isName_textColor : IsName "\\textcolor".toList where
  backslash := rfl
  letters := List.all_eq_true.mp (by decide)
  ne_backslash := by decide

theorem hasName_textColor : Rule.textColor.hasName "\\textcolor".toList = true := by
  decide +kernel

theorem start?_textColor (s : List Char) :
    grammar.start? .textColor ("\\textcolor".toList ++ ("\x7bred\x7d".toList ++ '{' :: s))
      = (grammar.start? .bracedText ('{' :: s)).map fun m =>
          ⟨"\\textcolor\x7bred\x7d".toList ++ m.taken, m.rest,
            [.mk .textColor ("\\textcolor\x7bred\x7d".toList ++ m.taken)
              (.mk .colorSpec "\x7bred\x7d".toList [.mk .colorValues "red".toList []] :: m.nodes)]⟩ := by
  have hname : (name "\\textcolor").run grammar.start? .loose
      ("\\textcolor".toList ++ ("\x7bred\x7d".toList ++ '{' :: s))
        = some ⟨"\\textcolor".toList, "\x7bred\x7d".toList ++ '{' :: s, []⟩ := rfl
  have hcolor : (Expr.rule .colorSpec).run grammar.start? .loose
      ("\x7bred\x7d".toList ++ '{' :: s) = some _ :=
    start?_colorSpec_red ('{' :: s)
  have hbody : expr .textColor
      = .seq (name "\\textcolor") (.seq (.rule .colorSpec) (.rule .bracedText)) := rfl
  have hspacing : Rule.textColor.kind.spacing = .loose := rfl
  have hrest : (Expr.seq (.rule .colorSpec) (.rule .bracedText)).run grammar.start? .loose
      ("\x7bred\x7d".toList ++ '{' :: s) = (grammar.start? .bracedText ('{' :: s)).map
        (⟨"\x7bred\x7d".toList, '{' :: s,
          [.mk .colorSpec "\x7bred\x7d".toList [.mk .colorValues "red".toList []]]⟩ ++ ·) :=
    run_seq_of_isSolid hcolor rfl rfl
  have hrun : (Expr.seq (name "\\textcolor") (.seq (.rule .colorSpec) (.rule .bracedText))).run
      grammar.start? .loose ("\\textcolor".toList ++ ("\x7bred\x7d".toList ++ '{' :: s))
        = ((Expr.seq (.rule .colorSpec) (.rule .bracedText)).run grammar.start? .loose
            ("\x7bred\x7d".toList ++ '{' :: s)).map
          (⟨"\\textcolor".toList, "\x7bred\x7d".toList ++ '{' :: s, []⟩ ++ ·) :=
    run_seq_of_isSolid hname rfl rfl
  rw [start?_eq_run, hspacing, hbody, hrun, hrest, Option.map_map, Option.map_map]
  rfl

theorem run_item_textColor (s : List Char) :
    item.run grammar.start? .loose (gap .loose
      ("\\textcolor".toList ++ ("\x7bred\x7d".toList ++ '{' :: s)) : Match Rule).rest
      = (grammar.start? .textColor ("\\textcolor".toList ++ ("\x7bred\x7d".toList ++ '{' :: s)) <|>
          grammar.start? .text ("\\textcolor".toList ++ ("\x7bred\x7d".toList ++ '{' :: s))) := by
  have hgap : (gap .loose
      ("\\textcolor".toList ++ ("\x7bred\x7d".toList ++ '{' :: s)) : Match Rule).rest
      = "\\textcolor".toList ++ ("\x7bred\x7d".toList ++ '{' :: s) := rfl
  have hrest : ∀ c ∈ ("\x7bred\x7d".toList ++ '{' :: s).head?, c.isAlpha = false := by
    intro c hc
    obtain rfl := Option.some.inj hc
    rfl
  rw [hgap]
  exact run_item_of_name isName_textColor hrest (by decide) hasName_textColor

/-- Coloured text takes the balanced group behind its colour. -/
theorem ofSource?_textColor {source rest : String} (ht : Balanced t)
    (hsource : source.toList
      = "\\textcolor".toList ++ ("\x7bred\x7d".toList ++ '{' :: (t ++ '}' :: rest.toList))) :
    Item.ofSource? source = (Item.ofSource? rest).map
      ([.command (.textColor ⟨none, "red"⟩ (Text.trimmed t))] ++ ·) := by
  have hstart := start?_textColor (t ++ '}' :: rest.toList)
  rw [start?_bracedText ht, Option.map_some] at hstart
  have hitem := run_item_textColor (t ++ '}' :: rest.toList)
  rw [hstart, ← hsource] at hitem
  refine ofSource?_of_item hitem rfl ?_
  have hunbrace : Text.unbrace ('{' :: (t ++ ['}'])) = t := by simp [Text.unbrace]
  simp [Item.ofNodes?, Item.ofNode?, Node.isScope, Node.command?, Node.rule, Node.text?,
    Node.first?, Node.parts, Node.text, Node.bracedText?, Node.colorSpec?, Node.trimmed?, hunbrace]
  rfl

theorem start?_block_red (s : List Char) :
    grammar.start? .block ("\x7bred\x7d".toList ++ s) = some ⟨"\x7bred\x7d".toList, s,
      [.mk .block "\x7bred\x7d".toList [.mk .body "red".toList [.mk .text "red".toList []]]]⟩ := by
  have hword : item.run grammar.start? .loose ("red".toList ++ '}' :: s)
      = some ⟨"red".toList, '}' :: s, [.mk .text "red".toList []]⟩ := by
    have htext : (expr .text).run grammar.start? .tight ("red".toList ++ '}' :: s)
        = some ⟨"red".toList, '}' :: s, []⟩ := rfl
    have hplain : item.run grammar.start? .loose ("red".toList ++ '}' :: s)
        = grammar.start? .text ("red".toList ++ '}' :: s) :=
      run_item_plain (by decide) (by decide) _
    have hspacing : Rule.text.kind.spacing = .tight := rfl
    rw [hplain, start?_eq_run, hspacing, htext]
    rfl
  have hmore : repetitions (item.run grammar.start? .loose) .loose ('}' :: s)
      = .nothing ('}' :: s) :=
    repetitions_of_none (run_item_closing s)
  have hbody : (Expr.rule .body).run grammar.start? .loose ("red".toList ++ '}' :: s)
      = some ⟨"red".toList, '}' :: s, [.mk .body "red".toList [.mk .text "red".toList []]]⟩ := by
    have hrun : (expr .body).run grammar.start? .loose ("red".toList ++ '}' :: s)
        = some _ := run_star_of_some hword
    rw [hmore] at hrun
    have hspacing : Rule.body.kind.spacing = .loose := rfl
    rw [Expr.run, start?_eq_run, hspacing, hrun]
    rfl
  have hopening : (Expr.word "\x7b").run grammar.start? .loose ("\x7bred\x7d".toList ++ s)
      = some ⟨['{'], "red".toList ++ '}' :: s, []⟩ := rfl
  have hclosing : (Expr.word "\x7d").run grammar.start? .loose ('}' :: s)
      = some ⟨['}'], s, []⟩ := rfl
  have hrun : (expr .block).run grammar.start? .loose ("\x7bred\x7d".toList ++ s) = some _ :=
    run_seq_join hopening (run_seq_join hbody hclosing)
  have hspacing : Rule.block.kind.spacing = .loose := rfl
  rw [start?_eq_run, hspacing, hrun]
  rfl

/-- Without a balanced group behind its colour, the name of coloured text is text, and its
colour is a block. -/
theorem ofSource?_textColor_of_no_group {source rest : String}
    (hno : ∀ t u, s = t ++ '}' :: u → ¬ Balanced t) (hrest : rest.toList = '{' :: s)
    (hsource : source.toList = "\\textcolor".toList ++ ("\x7bred\x7d".toList ++ rest.toList)) :
    Item.ofSource? source = (Item.ofSource? rest).map
      ([.command (.text "\\textcolor"), .scope .block [.command (.text "red")]] ++ ·) := by
  have hgroup : grammar.start? .bracedText ('{' :: s) = none := start?_bracedText_eq_none hno
  have hstart := start?_textColor s
  rw [hgroup, Option.map_none] at hstart
  have htext : grammar.start? .text ("\\textcolor".toList ++ ("\x7bred\x7d".toList ++ '{' :: s))
      = some ⟨"\\textcolor".toList, "\x7bred\x7d".toList ++ '{' :: s,
          [.mk .text "\\textcolor".toList []]⟩ :=
    start?_text_of_name isName_textColor rfl (by decide) (by decide) (by decide)
  have hitem := run_item_textColor s
  rw [hstart, htext, ← hrest, ← hsource] at hitem
  have hname : Item.ofSource? source
      = (Item.ofSource? (String.ofList ("\x7bred\x7d".toList ++ rest.toList))).map
          ([.command (.text "\\textcolor")] ++ ·) :=
    ofSource?_of_item hitem (by simp) (ofNodes?_word _)
  have hblock : item.run grammar.start? .loose (gap .loose
      (String.ofList ("\x7bred\x7d".toList ++ rest.toList)).toList : Match Rule).rest
        = some ⟨"\x7bred\x7d".toList, rest.toList, [.mk .block "\x7bred\x7d".toList
            [.mk .body "red".toList [.mk .text "red".toList []]]]⟩ := by
    rw [String.toList_ofList]
    exact (run_item_opening _).trans (start?_block_red rest.toList)
  have hcolor : Item.ofSource? (String.ofList ("\x7bred\x7d".toList ++ rest.toList))
      = (Item.ofSource? rest).map ([.scope .block [.command (.text "red")]] ++ ·) :=
    ofSource?_of_item hblock rfl rfl
  rw [hname, hcolor, Option.map_map]
  rfl

end Boxes

/-! ## The same group twice -/

/-- A block of plain braces is a balanced group. -/
theorem exists_of_start?_block {s : List Char} {m : Match Rule} (hs : PlainBraces s)
    (h : grammar.start? .block s = some m) : ∃ t, Balanced t ∧ s = '{' :: (t ++ '}' :: m.rest) := by
  have hsplit : m.taken ++ m.rest = s := grammar.splits_start? .block h
  have htaken : PlainBraces m.taken := hs.of_infix ⟨[], m.rest, by simpa using hsplit⟩
  obtain ⟨ns, hbody, -⟩ := (Grammar.derives_start? h : grammar.Derives .loose _ _ _).exists_of_rule
  obtain ⟨opening, x, inner, _, _, hinner, -, hopening, hx, hrest⟩ := hbody.exists_of_seq
  obtain ⟨body, y, closing, _, _, rfl, -, hbody, hy, hclosing⟩ := hrest.exists_of_seq
  obtain ⟨rfl, -⟩ := hopening.eq_of_lit
  obtain ⟨rfl, -⟩ := hclosing.eq_of_lit
  rw [hinner] at htaken
  obtain ⟨-, hplainx, hplaininner⟩ := htaken.parts
  obtain ⟨hplainbody, hplainy, -⟩ := hplaininner.parts
  have hquiet := PlainBraces.quiet
  have hxb : Balanced x := hquiet.balanced_of_between hx hplainx
  have hbb : Balanced body := hquiet.balanced_of_derives hbody hplainbody (by decide)
  have hyb : Balanced y := hquiet.balanced_of_between hy hplainy
  refine ⟨x ++ (body ++ y), hxb.append (hbb.append hyb), ?_⟩
  rw [← hsplit, hinner]
  simp

/-- Where braces are plain, a block ends where braced text ends. -/
theorem leavesDocument_of_plainBraces {s : List Char} (hs : PlainBraces ('{' :: s))
    (h : Parses ('{' :: s)) : LeavesDocument ('{' :: s) := by
  intro t u htu ht
  have hgap : (gap .loose ('{' :: s) : Match Rule).rest = '{' :: s := rfl
  cases hm : grammar.start? .block ('{' :: s) with
  | none =>
      have hitem : item.run grammar.start? .loose (gap .loose ('{' :: s) : Match Rule).rest = none :=
        (run_item_opening s).trans hm
      rw [Parses, itemsOf_of_none hitem] at h
      cases h
  | some m =>
      have hitem : item.run grammar.start? .loose (gap .loose ('{' :: s) : Match Rule).rest
          = some m :=
        (run_item_opening s).trans hm
      have hrest : Parses m.rest := (parses_iff_of_item hitem).mp h
      obtain ⟨t', ht', htu'⟩ := exists_of_start?_block hs hm
      have hsame : t ++ '}' :: u = t' ++ '}' :: m.rest := (List.cons.inj (htu.symm.trans htu')).2
      obtain ⟨-, rfl⟩ := ht.eq_of_closing ht' hsame
      rw [ofSource?_isSome_iff_parses, String.toList_ofList]
      exact hrest

/-- A source with a box in front of a group has items if and only if braced text leaves a
document behind it. -/
theorem isSome_iff_leavesDocument {s : List Char} {source group : String}
    (h : (Item.ofSource? group).isSome = true)
    (hbox : ∀ t u, s = t ++ '}' :: u → Balanced t → ∃ items : List Item,
      Item.ofSource? source = (Item.ofSource? (String.ofList u)).map (items ++ ·))
    (hname : (∀ t u, s = t ++ '}' :: u → ¬ Balanced t) → ∃ items : List Item,
      Item.ofSource? source = (Item.ofSource? group).map (items ++ ·)) :
    (Item.ofSource? source).isSome = true ↔ LeavesDocument ('{' :: s) := by
  constructor
  · intro hsome t u htu ht
    obtain ⟨items, hitems⟩ := hbox t u (List.cons.inj htu).2 ht
    rwa [hitems, Option.isSome_map] at hsome
  · intro hleaves
    by_cases hgroup : ∃ t u, s = t ++ '}' :: u ∧ Balanced t
    · obtain ⟨t, u, rfl, ht⟩ := hgroup
      obtain ⟨items, hitems⟩ := hbox t u rfl ht
      rw [hitems, Option.isSome_map]
      exact hleaves t u rfl ht
    · have hno : ∀ t u, s = t ++ '}' :: u → ¬ Balanced t := by
        intro t u htu ht
        exact hgroup ⟨t, u, htu, ht⟩
      obtain ⟨items, hitems⟩ := hname hno
      rwa [hitems, Option.isSome_map]

/-- Of a text that can stand in a block, a box makes a document as well if and only if the
balanced group at its start leaves a document; and so it is where braces are plain. -/
theorem ofSource?_boxes_isSome_iff {t : String}
    (h : (Item.ofSource? ("\x7b" ++ t ++ "\x7d")).isSome = true) :
    ((Item.ofSource? ("\\psframebox\x7b" ++ t ++ "\x7d")).isSome = true ↔
        LeavesDocument ("\x7b" ++ t ++ "\x7d").toList) ∧
      ((Item.ofSource? ("\\textcolor\x7bred\x7d\x7b" ++ t ++ "\x7d")).isSome = true ↔
        LeavesDocument ("\x7b" ++ t ++ "\x7d").toList) ∧
      (PlainBraces ("\x7b" ++ t ++ "\x7d").toList →
        LeavesDocument ("\x7b" ++ t ++ "\x7d").toList) := by
  have hgroup : ("\x7b" ++ t ++ "\x7d").toList = '{' :: (t.toList ++ ['}']) := by simp
  refine ⟨?_, ?_, ?_⟩
  · rw [hgroup]
    refine isSome_iff_leavesDocument h ?_ ?_
    · intro g u hgu hg
      refine ⟨_, ofSource?_framedBox hg ?_⟩
      simp [← hgu]
    · intro hno
      exact ⟨_, ofSource?_framedBox_of_no_group hno hgroup (by simp)⟩
  · rw [hgroup]
    refine isSome_iff_leavesDocument h ?_ ?_
    · intro g u hgu hg
      refine ⟨_, ofSource?_textColor hg ?_⟩
      simp [← hgu]
    · intro hno
      exact ⟨_, ofSource?_textColor_of_no_group hno hgroup (by simp)⟩
  · intro hplain
    rw [ofSource?_isSome_iff_parses] at h
    rw [hgroup] at h hplain ⊢
    exact leavesDocument_of_plainBraces hplain h

/-- The text of the box ends where the block ends, at the last brace. -/
theorem ofSource?_boxes_isSome_nested :
    (Item.ofSource? ("\x7b" ++ "a \x7bb\x7d" ++ "\x7d")).isSome = true ∧
      ((Item.ofSource? ("\\psframebox\x7b" ++ "a \x7bb\x7d" ++ "\x7d")).isSome = true ∧
        (Item.ofSource? ("\\textcolor\x7bred\x7d\x7b" ++ "a \x7bb\x7d" ++ "\x7d")).isSome
          = true) := by
  have h : (Item.ofSource? ("\x7b" ++ "a \x7bb\x7d" ++ "\x7d")).isSome = true := by cbv
  have htame : Tame ("\x7b" ++ "a \x7bb\x7d" ++ "\x7d").toList := by
    constructor <;> decide
  obtain ⟨hframed, hcolored, hplain⟩ := ofSource?_boxes_isSome_iff h
  have hleaves := hplain htame.plainBraces
  exact ⟨h, hframed.mpr hleaves, hcolored.mpr hleaves⟩

/-- A brace behind a backslash is text in a block, and ends the text of a box. -/
theorem ofSource?_box_around_escaped_brace :
    Item.ofSource? ("\x7b" ++ "\\\x7d" ++ "\x7d")
        = some [.scope .block [.command (.text "\\\x7d")]] ∧
      Item.ofSource? ("\\psframebox\x7b" ++ "\\\x7d" ++ "\x7d") = none ∧
      Item.ofSource? ("\\textcolor\x7bred\x7d\x7b" ++ "\\\x7d" ++ "\x7d") = none := by
  refine ⟨?_, ?_, ?_⟩
  · cbv
  · cbv
  · cbv

end PictureTree
