/-
# `Proofs.Document.Environments` — the markers of other environments

Of all environments the notation knows one, the picture.  The marker of any other one is
text, a word that is kept as it stands.  So that no marker of a picture is taken for text,
a guard stands in front of text; it looks for the name `pspicture` and not for what is
behind it.

    the guard            at names that start with `pspicture`     `run_reserved_eq_none_iff`
    a picture            at the name `pspicture` alone            `start?_picture_eq_none`

So a marker is text unless its name starts with `pspicture`, and the markers in between
are neither: no item of any body starts with one.
-/
import PictureTree.Proofs.Document.Commands
import PictureTree.Proofs.Document.Reading
import PictureTree.Proofs.Document.Scopes
import PictureTree.Proofs.Document.Tokens

namespace PictureTree

open PictureTree.Expr Rule Trailer

/-! ## Markers -/

/-- The marker of an environment, of its start or of its end: a name of letters, and maybe
a star behind it. -/
structure Marker where
  isStart : Bool
  name : List Char
  starred : Bool
  ne_nil : name ≠ []
  letters : ∀ c ∈ name, c.isAlpha = true

/-- The name of the picture environment. -/
def pictureName : List Char := "pspicture".toList

namespace Marker

variable (w : Marker) (s : List Char)

/-- The word behind the backslash. -/
def macroWord : List Char := if w.isStart then "begin".toList else "end".toList

/-- The macro of the marker. -/
def macroName : List Char := '\\' :: w.macroWord

/-- The star of the marker. -/
def star : List Char := if w.starred then ['*'] else []

/-- The marker as it is written. -/
def text : List Char := w.macroName ++ '{' :: (w.name ++ (w.star ++ ['}']))

theorem text_append : w.text ++ s = w.macroName ++ '{' :: (w.name ++ (w.star ++ '}' :: s)) := by
  simp [text]

/-- What holds of both macros holds of the macro of a marker. -/
theorem forall_macroWord {P : List Char → Prop} (hbegin : P "begin".toList)
    (hend : P "end".toList) : P w.macroWord := by
  rw [macroWord]
  split
  · exact hbegin
  · exact hend

theorem isName_macroName : IsName w.macroName where
  backslash := rfl
  letters := List.all_eq_true.mp
    (w.forall_macroWord (P := fun start => start.all Char.isAlpha = true) (by decide) (by decide))
  ne_backslash := w.forall_macroWord (P := (· ≠ [])) (by decide) (by decide)

theorem stops_behind_name : Stops .letter (w.star ++ '}' :: s) := by
  intro c hc
  unfold star at hc
  cases hstarred : w.starred <;> rw [hstarred] at hc <;> obtain rfl := Option.some.inj hc <;> rfl

/-- The name starts with a letter. -/
theorem exists_letter : ∃ c t, w.name = c :: t ∧ c.isAlpha = true := by
  obtain ⟨c, t, hct⟩ := List.exists_cons_of_ne_nil w.ne_nil
  exact ⟨c, t, hct, w.letters c (hct ▸ List.mem_cons_self)⟩

end Marker

/-! ## The guard -/

theorem run_lit_eq_none_iff {call : Rule → List Char → Option (Match Rule)} {sp : Spacing}
    {t s : List Char} : (Expr.lit t).run call sp s = none ↔ ¬ t <+: s := by
  rw [Expr.run, Option.map_eq_none_iff, Option.eq_none_iff_forall_ne_some]
  constructor
  · rintro h ⟨u, rfl⟩
    exact h u (Text.after?_eq_some.mpr rfl)
  · intro h u hu
    exact h ⟨u, (Text.after?_eq_some.mp hu).symm⟩

/-- Where the letters of a text stop, a word of letters does not go on. -/
theorem prefix_append_iff_of_stops {k n t : List Char} (hk : ∀ c ∈ k, c.isAlpha = true)
    (ht : Stops .letter t) : k <+: n ++ t ↔ k <+: n := by
  refine ⟨?_, fun h => h.trans (List.prefix_append n t)⟩
  rintro ⟨u, hu⟩
  rcases List.append_eq_append_iff.mp hu with ⟨z, rfl, -⟩ | ⟨z, rfl, hz⟩
  · exact List.prefix_append k z
  · cases z with
    | nil => exact ⟨[], by simp⟩
    | cons c z =>
        have hletter : c.isAlpha = true := hk c (by simp)
        have hstop : CharClass.test .letter c = false := ht c (by simp [hz])
        rw [CharClass.test, hletter] at hstop
        cases hstop

/-- Behind a text that is taken, a sequence goes on with its second part. -/
theorem Eats.run_seq_eq_none_iff {a b : Expr Rule} {t s : List Char} (ha : Eats a t s) :
    (Expr.seq a b).run grammar.start? .tight (t ++ s) = none ↔
      b.run grammar.start? .tight s = none := by
  obtain ⟨ns, hm⟩ := ha
  rw [run_seq_of_some hm, Option.map_eq_none_iff]
  rfl

theorem eats_spaces {c : Char} (hc : blank.test c = false) (s : List Char) :
    Eats spaces [] (c :: s) := by
  refine eats_star_one nofun ?_
  intro d hd
  obtain rfl := Option.some.inj hd
  exact hc

/-- The start of a marker is that of a picture if the name starts so. -/
theorem run_markerOf_eq_none_iff (start : List Char) {c : Char} {s : List Char}
    (hc : blank.test c = false) :
    (markerOf start).run grammar.start? .tight ('\\' :: start ++ '{' :: c :: s) = none ↔
      ¬ pictureName <+: c :: s := by
  have hcommand : Eats (.lit ('\\' :: start)) ('\\' :: start) ('{' :: c :: s) := eats_lit _ _
  have hspaces : Eats spaces [] ('{' :: c :: s) := eats_spaces (by decide) _
  have hbrace : Eats (word "\x7b") ['{'] (c :: s) := eats_lit _ _
  have hspaces' : Eats spaces [] (c :: s) := eats_spaces hc s
  exact hcommand.run_seq_eq_none_iff.trans (hspaces.run_seq_eq_none_iff.trans
    (hbrace.run_seq_eq_none_iff.trans (hspaces'.run_seq_eq_none_iff.trans run_lit_eq_none_iff)))

namespace Marker

variable (w : Marker) (s : List Char)

theorem run_reserved (t : List Char) :
    reserved.run grammar.start? .tight (w.macroName ++ '{' :: t)
      = (markerOf w.macroWord).run grammar.start? .tight (w.macroName ++ '{' :: t) := by
  refine w.forall_macroWord (P := fun start =>
    reserved.run grammar.start? .tight ('\\' :: start ++ '{' :: t)
      = (markerOf start).run grammar.start? .tight ('\\' :: start ++ '{' :: t)) ?_ ?_
  · have hend : (markerOf "end".toList).run grammar.start? .tight
        ('\\' :: "begin".toList ++ '{' :: t) = none := rfl
    exact (run_alt_of_none hend).trans (run_alt_of_none rfl)
  · have hothers : (Expr.alt (Expr.name "\\endpspicture") (markerOf "begin".toList)).run
        grammar.start? .tight ('\\' :: "end".toList ++ '{' :: t) = none := rfl
    have hreserved : reserved
        = .alt (markerOf "end".toList) (.alt (Expr.name "\\endpspicture") (markerOf "begin".toList)) :=
      rfl
    rw [hreserved, Expr.run, hothers]
    cases (markerOf "end".toList).run grammar.start? .tight ('\\' :: "end".toList ++ '{' :: t) <;> rfl

/-- The guard stops at names that start with the name of a picture, whatever is behind. -/
theorem run_reserved_eq_none_iff :
    reserved.run grammar.start? .tight (w.text ++ s) = none ↔ ¬ pictureName <+: w.name := by
  have hpicture : pictureName <+: w.name ++ (w.star ++ '}' :: s) ↔ pictureName <+: w.name :=
    prefix_append_iff_of_stops (List.all_eq_true.mp (by decide)) (w.stops_behind_name s)
  obtain ⟨c, t, hname, hc⟩ := w.exists_letter
  have hblank : blank.test c = false := by
    have hspace := (not_isSpace_of_isAlpha hc).1
    simpa [blank, CharClass.test, isSpace, Bool.or_assoc] using hspace
  rw [← hpicture, text_append, run_reserved, hname]
  exact run_markerOf_eq_none_iff w.macroWord hblank

/-! ## Text -/

theorem eats_envMarker : Eats envMarker w.text s := by
  have hcommand (t : List Char) : Eats (alts [word "\\begin", word "\\end"]) w.macroName t :=
    w.forall_macroWord
      (P := fun start => Eats (alts [word "\\begin", word "\\end"]) ('\\' :: start) t)
      (eats_lit _ t).alt (.alt_right rfl (eats_lit _ t))
  have hname : Eats (plus (.one .letter)) w.name ((w.star ++ ['}']) ++ s) := by
    refine eats_plus_one w.ne_nil w.letters ?_
    rw [List.append_assoc]
    exact w.stops_behind_name s
  have hstar : Eats (.opt (word "*")) w.star (['}'] ++ s) := by
    unfold star
    split
    · exact (eats_lit _ _).opt
    · exact eats_opt_nothing rfl
  exact (hcommand _).seq ((eats_lit ['{'] _).seq (hname.seq (hstar.seq (eats_lit ['}'] s))))

/-- A marker is text unless its name starts with the name of a picture. -/
theorem start?_text : grammar.start? .text (w.text ++ s)
    = if pictureName <+: w.name then none else some ⟨w.text, s, [.mk .text w.text []]⟩ := by
  split
  · next hpicture =>
      have hspacing : Rule.text.kind.spacing = .tight := rfl
      obtain ⟨m, hm⟩ := Option.ne_none_iff_exists'.mp
        (mt (w.run_reserved_eq_none_iff s).mp (not_not_intro hpicture))
      have hahead : (Expr.notAhead reserved).run grammar.start? .tight (w.text ++ s) = none := by
        rw [Expr.run, hm]
      have hbody : (expr .text).run grammar.start? .tight (w.text ++ s) = none :=
        run_seq_of_none hahead
      rw [start?_eq_run, hspacing, hbody]
      rfl
  · next hpicture =>
      refine Eats.start? rfl ?_
      have hahead : Eats (.notAhead reserved) [] (w.text ++ s) := by
        refine ⟨[], ?_⟩
        rw [List.nil_append, Expr.run, (w.run_reserved_eq_none_iff s).mpr hpicture]
        rfl
      exact hahead.seq (w.eats_envMarker s).alt

/-! ## No command and no picture -/

/-- No command starts with the macro of a marker, and no path command. -/
theorem run_commands_eq_none {e : Expr Rule}
    (he : e ∈ [command, alts (pathCommands.map .rule)]) :
    e.run grammar.start? .loose (w.text ++ s) = none := by
  have hmisses : (e.openings (grammar.openings 3)).any
      (fun os => os.all (Opening.misses w.macroName)) = true :=
    w.forall_macroWord
      (P := fun start => (e.openings (grammar.openings 3)).any
        (fun os => os.all (Opening.misses ('\\' :: start))) = true)
      (by revert e; decide +kernel) (by revert e; decide +kernel)
  rw [text_append]
  exact Grammar.run_start?_eq_none_of_misses hmisses w.isName_macroName.ne_nil
    w.isName_macroName.letters (by simp)

/-- What follows the name of the environment at the start of a picture. -/
abbrev behindName : List (Expr Rule) :=
  [star?, word "\x7d", params?, coord?, coord?, .rule .body, word "\\end", word "\x7b",
    word "pspicture", .opt (word "*"), word "\x7d"]

/-- Of the name of a picture no letter is left. -/
theorem run_behindName_eq_none {c : Char} (hc : c.isAlpha = true) (t : List Char) :
    (seqs behindName).run grammar.start? .loose (c :: t) = none := by
  have hne {d : Char} (hd : d.isAlpha = false) : c ≠ d := by
    rintro rfl
    rw [hd] at hc
    cases hc
  have hstar : star?.run grammar.start? .loose (c :: t) = some (.nothing (c :: t)) := by
    have hopening : (grammar.openings 1 .star).any
        (fun os => os.all fun o => o.text.head? = some '*') = true := by decide
    exact run_opt_of_none (Grammar.start?_eq_none_of_head hopening (by simpa using hne rfl))
  have hclosing : (word "\x7d").run grammar.start? .loose (c :: t) = none := by
    refine run_lit_eq_none_iff.mpr ?_
    intro h
    exact hne rfl (List.cons_prefix_cons.mp h).1.symm
  exact (run_seq_of_nothing hstar (isSolid_of_isAlpha hc)).trans (run_seq_of_none hclosing)

/-- Behind a literal in front of a solid character, a sequence goes on at this character. -/
theorem run_lit_seq_eq_none {b : Expr Rule} {t s : List Char} {c : Char} (hc : isSolid c = true)
    (hb : b.run grammar.start? .loose (c :: s) = none) :
    (Expr.seq (.lit t) b).run grammar.start? .loose (t ++ c :: s) = none := by
  rw [run_seq_of_isSolid (run_lit_append t (c :: s)) rfl hc, hb]
  rfl

/-- No picture starts with another name. -/
theorem run_pictureStart_eq_none (hname : w.name ≠ pictureName) :
    (seqs (word "\\begin" :: word "\x7b" :: word "pspicture" :: behindName)).run grammar.start?
      .loose ("\\begin".toList ++ '{' :: (w.name ++ (w.star ++ '}' :: s))) = none := by
  obtain ⟨c, n, hcons, hc⟩ := w.exists_letter
  have hbehind : (seqs (word "pspicture" :: behindName)).run grammar.start? .loose
      (w.name ++ (w.star ++ '}' :: s)) = none := by
    by_cases hpicture : pictureName <+: w.name
    · obtain ⟨z, hz⟩ := hpicture
      cases z with
      | nil => exact absurd (by rw [← hz, List.append_nil]) hname
      | cons d z =>
          have hd : d.isAlpha = true := w.letters d (by simp [← hz])
          rw [← hz, List.append_assoc]
          exact run_lit_seq_eq_none (isSolid_of_isAlpha hd) (run_behindName_eq_none hd _)
    · refine run_seq_of_none (run_lit_eq_none_iff.mpr ?_)
      exact mt (prefix_append_iff_of_stops (List.all_eq_true.mp (by decide))
        (w.stops_behind_name s)).mp hpicture
  rw [hcons] at hbehind ⊢
  have hbrace := run_lit_seq_eq_none (t := "\x7b".toList) (isSolid_of_isAlpha hc) hbehind
  exact run_lit_seq_eq_none rfl hbrace

/-- A picture has the very name. -/
theorem start?_picture_eq_none (hname : w.name ≠ pictureName) :
    grammar.start? .picture (w.text ++ s) = none := by
  have hbody : (expr .picture).run grammar.start? .loose (w.text ++ s) = none := by
    rw [text_append]
    have hletter : ∀ c ∈ ('{' :: (w.name ++ (w.star ++ '}' :: s))).head?, c.isAlpha = false := by
      simp
    have hmisses {e : Expr Rule} {start : List Char} (hstart : start ≠ [])
        (hletters : start.all Char.isAlpha = true)
        (he : (e.openings (grammar.openings 1)).any
          (fun os => os.all (Opening.misses ('\\' :: start))) = true) :
        e.run grammar.start? .loose
          ('\\' :: start ++ '{' :: (w.name ++ (w.star ++ '}' :: s))) = none :=
      Grammar.run_start?_eq_none_of_misses he (List.cons_ne_nil _ _)
        (List.all_eq_true.mp hletters) hletter
    have hstarted := w.run_pictureStart_eq_none s hname
    refine w.forall_macroWord (P := fun start => (expr .picture).run grammar.start? .loose
      ('\\' :: start ++ '{' :: (w.name ++ (w.star ++ '}' :: s))) = none) ?_ ?_
    · exact (run_alt_of_none hstarted).trans (hmisses (by decide) (by decide) (by decide +kernel))
    · exact hmisses (by decide) (by decide) (by decide +kernel)
  have hspacing : Rule.picture.kind.spacing = .loose := rfl
  rw [start?_eq_run, hspacing, hbody]
  rfl

/-! ## Items -/

theorem run_item (hname : w.name ≠ pictureName) :
    item.run grammar.start? .loose (w.text ++ s)
      = if pictureName <+: w.name then none else some ⟨w.text, s, [.mk .text w.text []]⟩ := by
  have hpicture : (Expr.rule .picture).run grammar.start? .loose (w.text ++ s) = none :=
    w.start?_picture_eq_none s hname
  have hcommand := w.run_commands_eq_none s (e := command) List.mem_cons_self
  exact (run_alt_of_none hpicture).trans ((run_alt_of_none hcommand).trans (w.start?_text s))

/-- In the body of a custom path no picture is looked for. -/
theorem run_customItem : customItem.run grammar.start? .loose (w.text ++ s)
      = if pictureName <+: w.name then none else some ⟨w.text, s, [.mk .text w.text []]⟩ := by
  have hpath := w.run_commands_eq_none s (e := alts (pathCommands.map .rule)) (by simp)
  have hcommand := w.run_commands_eq_none s (e := command) List.mem_cons_self
  exact (run_alt_of_none hpath).trans ((run_alt_of_none hcommand).trans (w.start?_text s))

/-- What a marker is wherever an item is looked for, in any body. -/
theorem run_of_mem_items (hname : w.name ≠ pictureName) {e : Expr Rule}
    (he : e ∈ [item, customItem]) : e.run grammar.start? .loose (w.text ++ s)
      = if pictureName <+: w.name then none else some ⟨w.text, s, [.mk .text w.text []]⟩ := by
  simp only [List.mem_cons, List.not_mem_nil, or_false] at he
  rcases he with rfl | rfl
  · exact w.run_item s hname
  · exact w.run_customItem s

/-! ## Sources and scopes -/

/-- The marker as a source. -/
def source : String := String.ofList w.text

theorem gap_text : (gap .loose (w.text ++ s) : Match Rule).rest = w.text ++ s := by
  have hcons : w.text ++ s = '\\' :: (w.macroWord ++ '{' :: (w.name ++ (w.star ++ '}' :: s))) :=
    w.text_append s
  rw [hcons, gap_of_isSolid rfl]
  rfl

/-- A source that starts with a marker is the marker as text and the source behind it. -/
theorem ofSource?_append (hname : w.name ≠ pictureName) (hpicture : ¬ pictureName <+: w.name)
    (rest : String) : Item.ofSource? (w.source ++ rest)
      = (Item.ofSource? rest).map ([.command (.text w.source)] ++ ·) := by
  have hitem := w.run_item rest.toList hname
  rw [if_neg hpicture, ← w.gap_text] at hitem
  have htext : (w.source ++ rest).toList = w.text ++ rest.toList := by simp [source]
  rw [← htext] at hitem
  exact ofSource?_of_item hitem rfl (ofNodes?_word w.text)

/-- No source starts with a marker that is stopped by the guard. -/
theorem ofSource?_append_eq_none (hname : w.name ≠ pictureName) (hpicture : pictureName <+: w.name)
    (rest : String) : Item.ofSource? (w.source ++ rest) = none := by
  have hitem := w.run_item rest.toList hname
  rw [if_pos hpicture, ← w.gap_text] at hitem
  have htext : (w.source ++ rest).toList = w.text ++ rest.toList := by simp [source]
  rw [ofSource?_eq_itemsOf, htext, itemsOf_of_none hitem, Match.rest_nothing, w.gap_text]
  exact if_neg (by simp [text])

/-- Between the start of a form and its end, a marker is a body with one text. -/
theorem start?_body_marker {f : ScopeForm} (hf : f ∈ scopeForms) (hname : w.name ≠ pictureName)
    (hpicture : ¬ pictureName <+: w.name) : grammar.start? f.body (w.text ++ f.ending)
      = some ⟨w.text, f.ending, [.mk f.body w.text [.mk .text w.text []]]⟩ := by
  obtain ⟨e, he, hkind, hbody, hend⟩ := ScopeForm.exists_item hf
  have hrun := w.run_of_mem_items f.ending hname he
  rw [if_neg hpicture] at hrun
  exact ScopeForm.start?_body_of_item hkind hbody hrun hend

/-- **The markers of other environments are text**, each as it stands: in front of any source,
wherever an item of a body is looked for, and alone in a scope of any form; and every rule
with a body is the choice of its forms.  Where the name goes on behind `pspicture` the guard
takes them for the markers of a picture, and nothing is read at all. -/
theorem read_as_text (hname : w.name ≠ pictureName) :
    (∀ rest, Item.ofSource? (w.source ++ rest) = if pictureName <+: w.name then none
      else (Item.ofSource? rest).map ([.command (.text w.source)] ++ ·)) ∧
    (∀ e ∈ [item, customItem], ∀ s, e.run grammar.start? .loose (w.text ++ s)
      = if pictureName <+: w.name then none else some ⟨w.text, s, [.mk .text w.text []]⟩) ∧
    (¬ pictureName <+: w.name →
      Item.ofSource? w.source = some [.command (.text w.source)] ∧
      ∀ f ∈ scopeForms, ∀ o, f.Opens o w.text → ∃ head,
        Item.ofSource? (String.ofList (o ++ (w.text ++ f.ending)))
          = some [.scope head [.command (.text w.source)]]) ∧
    ∀ r, (∃ b ∈ (expr r).calls, Node.isBody b = true) →
      expr r = alts ((scopeForms.filter fun f => f.rule = r).map ScopeForm.whole) := by
  refine ⟨?_, ?_, ?_, fun _ => expr_of_body_mem_calls⟩
  · intro rest
    split
    · next hpicture => exact w.ofSource?_append_eq_none hname hpicture rest
    · next hpicture => exact w.ofSource?_append hname hpicture rest
  · intro e he s
    exact w.run_of_mem_items s hname he
  · intro hpicture
    constructor
    · have hsource := w.ofSource?_append hname hpicture ""
      rw [String.append_empty, ofSource?_empty] at hsource
      exact hsource
    · intro f hf o ho
      exact ScopeForm.ofSource?_eq hf ho rfl (w.start?_body_marker hf hname hpicture)
        (ofNodes?_word w.text)

/-- The start of a figure over two columns. -/
def figure : Marker where
  isStart := true
  name := "figure".toList
  starred := true
  ne_nil := by decide
  letters := List.all_eq_true.mp (by decide)

theorem read_as_text_figure :
    figure.name ≠ pictureName ∧ ¬ pictureName <+: figure.name ∧
      figure.source = "\\begin\x7bfigure*\x7d" ∧
      Item.ofSource? figure.source = some [.command (.text figure.source)] ∧
      ∀ p ∈ scopeForms.zip ["\\begin\x7bpspicture\x7d(1,1)", "\\pspicture(1,1)", "\x7b",
          "\\pscustom*\x7b", "\\rput(1,1)\x7b", "\\psrotate(1,1)\x7b90\x7d\x7b"],
        p.1.Opens p.2.toList figure.text ∧ ∃ head,
          Item.ofSource? (String.ofList (p.2.toList ++ (figure.text ++ p.1.ending)))
            = some [.scope head [.command (.text figure.source)]] := by
  have hname : figure.name ≠ pictureName := by decide
  have hpicture : ¬ pictureName <+: figure.name := by decide
  have hopens : ∀ p ∈ scopeForms.zip ["\\begin\x7bpspicture\x7d(1,1)", "\\pspicture(1,1)",
      "\x7b", "\\pscustom*\x7b", "\\rput(1,1)\x7b", "\\psrotate(1,1)\x7b90\x7d\x7b"],
      p.1.Opens p.2.toList figure.text := by
    decide +kernel
  obtain ⟨-, -, htext, -⟩ := figure.read_as_text hname
  obtain ⟨hsource, hscope⟩ := htext hpicture
  refine ⟨hname, hpicture, rfl, hsource, ?_⟩
  intro p hp
  exact ⟨hopens p hp, hscope p.1 (List.of_mem_zip hp).1 _ (hopens p hp)⟩

/-- The start of an environment whose name goes on behind that of a picture. -/
def pspicturex : Marker where
  isStart := true
  name := "pspicturex".toList
  starred := false
  ne_nil := by decide
  letters := List.all_eq_true.mp (by decide)

theorem pspicturex_not_read :
    pspicturex.name ≠ pictureName ∧ pspicturex.source = "\\begin\x7bpspicturex\x7d" ∧
      Item.ofSource? pspicturex.source = none := by
  refine ⟨by decide, rfl, ?_⟩
  cbv

end Marker

end PictureTree
