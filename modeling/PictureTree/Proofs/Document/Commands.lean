/-
# `Proofs.Document.Commands` — a command by its name

Commands are tried one after the other, but a name that no letter follows is the
name of at most one of them: at such a name an item is this command, or else text.

    at a brace                     `run_item_opening`, `run_item_closing`
    at the name of a command       `run_item_of_name`
    the text of an unread command  `run_text_of_name`
-/
import PictureTree.Proofs.Document.Braces
import PictureTree.Proofs.Document.TextRule
import PictureTree.Proofs.Grammar.Openings
import PictureTree.Proofs.Grammar.Running

namespace PictureTree

open PictureTree.Expr Rule Trailer

/-! ## Where no command starts -/

theorem openings_of_ne_block : ∀ r ∈ Rule.picture :: commands, r ≠ .block →
    (grammar.openings 3 r).any (fun os => os.all fun o => o.text.head? = some '\\') = true := by
  decide +kernel

/-- Every command but a block starts with a backslash. -/
theorem start?_eq_none_of_ne_backslash {r : Rule} (hr : r ∈ Rule.picture :: commands)
    (hblock : r ≠ .block) {c : Char} (hc : c ≠ '\\') (s : List Char) :
    grammar.start? r (c :: s) = none :=
  Grammar.start?_eq_none_of_head (openings_of_ne_block r hr hblock) (by simpa using hc)

theorem start?_text_brace {c : Char} (hc : isBrace c = true) (s : List Char) :
    grammar.start? .text (c :: s) = none := by
  have halts : (alts [envMarker, macroText, plainWord]).run grammar.start? .tight (c :: s)
      = none := by
    simp only [isBrace, Bool.or_eq_true, beq_iff_eq] at hc
    rcases hc with rfl | rfl <;> rfl
  have hspacing : Rule.text.kind.spacing = .tight := rfl
  rw [start?_eq_run, hspacing]
  rcases run_text_or grammar.start? (c :: s) with h | h
  · rw [h]
    rfl
  · rw [h, halts]
    rfl

theorem start?_block_of_ne {c : Char} (hc : c ≠ '{') (s : List Char) :
    grammar.start? .block (c :: s) = none := by
  have hopening : (grammar.openings 1 .block).any
      (fun os => os.all fun o => o.text.head? = some '{') = true := by decide
  exact Grammar.start?_eq_none_of_head hopening (by simpa using hc)

/-- An opening brace starts a block. -/
theorem run_item_opening (s : List Char) :
    item.run grammar.start? .loose ('{' :: s) = grammar.start? .block ('{' :: s) := by
  have hpicture : (Expr.rule Rule.picture).run grammar.start? .loose ('{' :: s) = none :=
    start?_eq_none_of_ne_backslash List.mem_cons_self (by decide) (by decide) s
  have hcommand : command.run grammar.start? .loose ('{' :: s)
      = grammar.start? .block ('{' :: s) := by
    refine run_alts_rules (by decide) ?_
    intro r hr hne
    exact start?_eq_none_of_ne_backslash (List.mem_cons_of_mem _ hr) hne (by decide) s
  have htext : (Expr.rule Rule.text).run grammar.start? .loose ('{' :: s) = none :=
    start?_text_brace rfl s
  have hitem : item.run grammar.start? .loose ('{' :: s)
      = (Expr.alt command (.rule .text)).run grammar.start? .loose ('{' :: s) :=
    run_alt_of_none hpicture
  rw [hitem, Expr.run, hcommand, htext]
  cases grammar.start? .block ('{' :: s) <;> rfl

/-- Where neither a command nor a block starts, there is text. -/
theorem run_item_plain {c : Char} (hbackslash : c ≠ '\\') (hopening : c ≠ '{') (s : List Char) :
    item.run grammar.start? .loose (c :: s) = grammar.start? .text (c :: s) := by
  have hpicture : (Expr.rule Rule.picture).run grammar.start? .loose (c :: s) = none :=
    start?_eq_none_of_ne_backslash List.mem_cons_self (by decide) hbackslash s
  have hcommand : command.run grammar.start? .loose (c :: s) = none := by
    refine run_alts_eq_none ?_
    intro e he
    obtain ⟨r, hr, rfl⟩ := List.mem_map.mp he
    by_cases hblock : r = .block
    · subst hblock
      exact start?_block_of_ne hopening s
    · exact start?_eq_none_of_ne_backslash (List.mem_cons_of_mem _ hr) hblock hbackslash s
  have hitem : item.run grammar.start? .loose (c :: s)
      = (Expr.alt command (.rule .text)).run grammar.start? .loose (c :: s) :=
    run_alt_of_none hpicture
  rw [hitem, run_alt_of_none hcommand]
  rfl

theorem run_item_closing (s : List Char) : item.run grammar.start? .loose ('}' :: s) = none := by
  rw [run_item_plain (by decide) (by decide)]
  exact start?_text_brace rfl s

/-! ## Names -/

/-- Whether no command but one starts with a name. -/
def Rule.hasName (r : Rule) (w : List Char) : Bool :=
  (Rule.picture :: commands).all fun r' =>
    decide (r' = r) || (grammar.openings 3 r').any fun os => os.all (Opening.misses w)

/-- A name: a backslash and letters. -/
structure IsName (w : List Char) : Prop where
  backslash : w.head? = some '\\'
  letters : ∀ c ∈ w.tail, c.isAlpha = true
  ne_backslash : w.tail ≠ []

theorem IsName.ne_nil {w : List Char} (hw : IsName w) : w ≠ [] := by
  rintro rfl
  cases hw.backslash

section Name

variable {w rest : List Char} (hw : IsName w) (hrest : ∀ c ∈ rest.head?, c.isAlpha = false)
include hw hrest

theorem start?_eq_none_of_hasName {r r' : Rule} (hr : r.hasName w = true)
    (hr' : r' ∈ Rule.picture :: commands) (hne : r' ≠ r) :
    grammar.start? r' (w ++ rest) = none := by
  have hmisses := List.all_eq_true.mp hr r' hr'
  rw [decide_eq_false hne, Bool.false_or] at hmisses
  have hmisses : ((Expr.rule r').openings (grammar.openings 3)).any
      (fun os => os.all (Opening.misses w)) = true := hmisses
  have hrun : (Expr.rule r').run grammar.start? .tight (w ++ rest) = none :=
    Grammar.run_start?_eq_none_of_misses hmisses hw.ne_nil hw.letters hrest
  exact hrun

/-- At the name of a command there is this command, or text. -/
theorem run_item_of_name {r : Rule} (hr : r ∈ commands) (hname : r.hasName w = true) :
    item.run grammar.start? .loose (w ++ rest)
      = (grammar.start? r (w ++ rest) <|> grammar.start? .text (w ++ rest)) := by
  have hpicture : (Expr.rule Rule.picture).run grammar.start? .loose (w ++ rest) = none := by
    refine start?_eq_none_of_hasName hw hrest hname List.mem_cons_self ?_
    rintro rfl
    exact absurd hr (by decide)
  have hcommand : command.run grammar.start? .loose (w ++ rest) = grammar.start? r (w ++ rest) := by
    refine run_alts_rules hr ?_
    intro r' hr' hne
    exact start?_eq_none_of_hasName hw hrest hname (List.mem_cons_of_mem _ hr') hne
  have hitem : item.run grammar.start? .loose (w ++ rest)
      = (Expr.alt command (.rule .text)).run grammar.start? .loose (w ++ rest) :=
    run_alt_of_none hpicture
  rw [hitem, Expr.run, hcommand]
  rfl

end Name

/-- At a name that is no marker, text is the name. -/
theorem run_text_of_name (call : Rule → List Char → Option (Match Rule)) {w rest : List Char}
    (hw : IsName w) (hrest : ∀ d ∈ rest.head?, d.isAlpha = false ∧ d ≠ '*')
    (hreserved : (reserved.openings fun _ => none).any
      (fun os => os.all (Opening.misses w)) = true)
    (hmarker : (envMarker.openings fun _ => none).any
      (fun os => os.all (Opening.misses w)) = true) :
    (expr .text).run call .tight (w ++ rest) = some ⟨w, rest, []⟩ := by
  have hletter : ∀ c ∈ rest.head?, c.isAlpha = false := fun c hc => (hrest c hc).1
  have hnone : ∀ {e : Expr Rule},
      (e.openings fun _ => none).any (fun os => os.all (Opening.misses w)) = true →
        e.run call .tight (w ++ rest) = none := fun he =>
    Expr.run_eq_none_of_misses (fun hr _ => by cases hr) he hw.ne_nil hw.letters hletter
  have hahead : (Expr.notAhead reserved).run call .tight (w ++ rest)
      = some (.nothing (w ++ rest)) := by
    rw [Expr.run, hnone hreserved]
  have hmacro : macroText.run call .tight (w ++ rest) = some ⟨w, rest, []⟩ := by
    obtain ⟨b, name, rfl⟩ := List.exists_cons_of_ne_nil hw.ne_nil
    obtain rfl : b = '\\' := Option.some.inj hw.backslash
    obtain ⟨c, name, rfl⟩ := List.exists_cons_of_ne_nil hw.ne_backslash
    exact run_macroText call (List.all_eq_true.mpr hw.letters) hrest
  have halts : (alts [envMarker, macroText, plainWord]).run call .tight (w ++ rest)
      = some ⟨w, rest, []⟩ :=
    (run_alt_of_none (hnone hmarker)).trans (run_alt_of_some hmacro)
  exact run_seq_join hahead halts

theorem start?_text_of_name {w rest : List Char} {d : Char} (hw : IsName w)
    (hd : d.isAlpha = false) (hstar : d ≠ '*')
    (hreserved : (reserved.openings (grammar.openings 1)).any
      (fun os => os.all (Opening.misses w)) = true)
    (hmarker : (envMarker.openings (grammar.openings 1)).any
      (fun os => os.all (Opening.misses w)) = true) :
    grammar.start? .text (w ++ d :: rest) = some ⟨w, d :: rest, [.mk .text w []]⟩ := by
  have hrest : ∀ c ∈ (d :: rest).head?, c.isAlpha = false ∧ c ≠ '*' := by
    intro c hc
    obtain rfl := Option.some.inj hc
    exact ⟨hd, hstar⟩
  have hspacing : Rule.text.kind.spacing = .tight := rfl
  rw [start?_eq_run, hspacing, run_text_of_name _ hw hrest hreserved hmarker]
  rfl

end PictureTree
