/-
# `Proofs.Document.LoneNames` — names that stand alone

A dot, a grid, axes and the end of a path need nothing but their names.  Such a
name with only blanks behind it is this command, and with a word behind the
blanks it is text.  In both cases there is an item, and nothing but the blanks
and the word may be left behind it: so an item is steady, though the command is
not, and a scope does not see a line behind its text.

    an item at a name alone      `run_choice_lone`
    items are steady             `steady_choice`
    every rule of the notation   `meets_grade`
-/
import PictureTree.Proofs.Document.Commands

namespace PictureTree

open PictureTree.Expr Rule Trailer

/-! ## Behind a name -/

/-- Blanks and comments, up to the end or to a word. -/
structure Trails (x : List Char) : Prop where
  isAlpha : ∀ c ∈ (gap .loose x : Match Rule).rest, c.isAlpha = true
  head : ∀ c ∈ x.head?, isSolid c = false

section Trails

variable {T : Trailer Rule} {x : List Char}

theorem Trails.of_gap_eq_nil (h : (gap .loose x : Match Rule).rest = []) : Trails x where
  isAlpha c hc := by
    rw [h] at hc
    cases hc
  head c hc := by
    obtain ⟨y, rfl⟩ := List.head?_eq_some_iff.mp hc
    refine Bool.eq_false_iff.mpr fun hsolid => ?_
    rw [gap_of_isSolid hsolid] at h
    cases h

theorem Trails.append_line (h : (gap .loose x : Match Rule).rest = []) : Trails (x ++ T.line) where
  isAlpha := by
    rw [gap_line_of_nil h]
    exact T.isAlpha_word
  head c hc := by
    cases x with
    | nil =>
        obtain rfl := Option.some.inj hc
        rfl
    | cons d x => exact (Trails.of_gap_eq_nil h).head c hc

theorem Trails.not_isAlpha (hx : Trails x) : ∀ c ∈ x.head?, c.isAlpha = false ∧ c ≠ '*' := by
  intro c hc
  have hsolid := hx.head c hc
  constructor
  · refine Bool.eq_false_iff.mpr fun h => ?_
    rw [isSolid_of_isAlpha h] at hsolid
    cases hsolid
  · rintro rfl
    cases hsolid

end Trails

/-! ## Names alone -/

/-- Whether an expression is a name, or starts with it. -/
def Expr.startsWithName (t : List Char) : Expr Rule → Bool
  | .seq a b => (Expr.seq a b).nameText? == some t || a.nameText? == some t
  | _ => false

theorem isName_of_mem_loneNames : ∀ t ∈ loneNames, IsName t := by
  have htable : ∀ t ∈ loneNames,
      t.head? = some '\\' ∧ t.tail.all Char.isAlpha = true ∧ t.tail ≠ [] := by decide
  intro t ht
  obtain ⟨hbackslash, hletters, hne⟩ := htable t ht
  exact ⟨hbackslash, List.all_eq_true.mp hletters, hne⟩

/-- At a name that may stand alone there is a command with this name, or none. -/
theorem misses_or_startsWithName : ∀ r ∈ Rule.picture :: (pathCommands ++ commands),
    r.kind = .phrase ∧ ∀ t ∈ loneNames,
      (grammar.openings 3 r).any (fun os => os.all (Opening.misses t)) = true ∨
        (expr r).startsWithName t = true := by
  decide +kernel

section Lone

variable {t x : List Char} {m : Match Rule}

/-- What starts with a name takes all there is behind the name, if it is alone. -/
theorem rest_of_startsWithName {call : Rule → List Char → Option (Match Rule)} {e : Expr Rule}
    (hcall : ∀ r, Splits (call r)) (he : e.startsWithName t = true) (hx : Trails x)
    (hm : e.run call .loose (t ++ x) = some m) :
    (gap .loose x : Match Rule).rest = [] ∧ m.rest = [] := by
  cases e with
  | seq a b =>
      rcases Bool.or_eq_true_iff.mp he with he | he
      · rw [Survey.eq_nameOf (beq_iff_eq.mp he)] at hm
        exact rest_of_run_nameOf hx.isAlpha hm
      · rw [Survey.eq_nameOf (beq_iff_eq.mp he)] at hm
        cases hk : (nameOf t).run call .loose (t ++ x) with
        | none =>
            rw [run_seq_of_none hk] at hm
            cases hm
        | some k =>
            obtain ⟨hgap, hrest⟩ := rest_of_run_nameOf hx.isAlpha hk
            rw [run_seq_of_some hk, hrest, gap_nil] at hm
            obtain ⟨n, hn, rfl⟩ := Option.map_eq_some_iff.mp hm
            have hsplit := Expr.split_run hcall .loose b hn
            exact ⟨hgap, (List.append_eq_nil_iff.mp hsplit).2⟩
  | lit | one | alt | opt | star | notAhead | rule | atEnd => cases he

theorem rest_of_apply_lone {depth : Nat} {r : Rule}
    (hr : r ∈ Rule.picture :: (pathCommands ++ commands)) (ht : t ∈ loneNames) (hx : Trails x)
    (hm : grammar.apply depth r (t ++ x) = some m) :
    (gap .loose x : Match Rule).rest = [] ∧ m.rest = [] := by
  obtain ⟨hkind, htable⟩ := misses_or_startsWithName r hr
  have hname := isName_of_mem_loneNames t ht
  rcases htable t ht with hmisses | hstarts
  · rw [Grammar.apply_eq_none_of_misses hmisses hname.ne_nil hname.letters
      fun c hc => (hx.not_isAlpha c hc).1] at hm
    cases hm
  · cases depth with
    | zero => cases hm
    | succ depth =>
        have hkind : grammar.kind r = .phrase := hkind
        rw [Grammar.apply, hkind] at hm
        obtain ⟨k, hk, rfl⟩ := Option.map_eq_some_iff.mp hm
        have hrest : (gap .loose x : Match Rule).rest = [] ∧ k.rest = [] :=
          rest_of_startsWithName (grammar.split_apply depth) hstarts hx hk
        exact hrest

/-- A choice between commands, or else text. -/
def choice (rs : List Rule) : Expr Rule := alts ((rs ++ [Rule.text]).map .rule)

theorem run_item (call : Rule → List Char → Option (Match Rule)) (s : List Char) :
    item.run call .loose s = (choice (Rule.picture :: commands)).run call .loose s := by
  have hchoice : choice (Rule.picture :: commands)
      = alts (.rule Rule.picture :: (commands.map .rule ++ [.rule Rule.text])) := by
    simp [choice]
  have hitem : item.run call .loose s
      = ((Expr.rule Rule.picture).run call .loose s <|>
          (command.run call .loose s <|> (Expr.rule Rule.text).run call .loose s)) := rfl
  rw [hchoice, run_alts_cons (by simp), run_alts_append (by decide) (by simp), hitem]
  rfl

theorem run_customItem (call : Rule → List Char → Option (Match Rule)) (s : List Char) :
    customItem.run call .loose s = (choice (pathCommands ++ commands)).run call .loose s := by
  have hchoice : choice (pathCommands ++ commands)
      = alts (pathCommands.map .rule ++ (commands.map .rule ++ [.rule Rule.text])) := by
    simp [choice]
  have hitem : customItem.run call .loose s
      = ((alts (pathCommands.map .rule)).run call .loose s <|>
          (command.run call .loose s <|> (Expr.rule Rule.text).run call .loose s)) := rfl
  rw [hchoice, run_alts_append (by decide) (by simp), run_alts_append (by decide) (by simp), hitem]
  rfl

/-- At a name alone there is text, or a command that takes all there is. -/
theorem run_choice_lone {rs : List Rule} (hrs : rs ⊆ Rule.picture :: (pathCommands ++ commands))
    (ht : t ∈ loneNames) (hx : Trails x) (depth : Nat) :
    ∃ m, (choice rs).run (grammar.apply (depth + 1)) .loose (t ++ x) = some m ∧
      ((gap .loose x : Match Rule).rest = [] ∧ m.rest = [] ∨ m = ⟨t, x, [.mk .text t []]⟩) := by
  have hreserved : ∀ t ∈ loneNames,
      (reserved.openings fun _ => none).any (fun os => os.all (Opening.misses t)) = true ∧
        (envMarker.openings fun _ => none).any (fun os => os.all (Opening.misses t)) = true := by
    decide
  have htext : grammar.apply (depth + 1) .text (t ++ x) = some ⟨t, x, [.mk .text t []]⟩ := by
    rw [apply_text_succ, run_text_of_name _ (isName_of_mem_loneNames t ht) hx.not_isAlpha
      (hreserved t ht).1 (hreserved t ht).2]
    rfl
  have hsome : ((choice rs).run (grammar.apply (depth + 1)) .loose (t ++ x)).isSome = true :=
    isSome_run_alts (e := .rule Rule.text) (by simp)
      (Option.isSome_iff_exists.mpr ⟨_, htext⟩)
  obtain ⟨m, hm⟩ := Option.isSome_iff_exists.mp hsome
  obtain ⟨e, he, hrun⟩ := exists_of_run_alts hm
  obtain ⟨r, hr, rfl⟩ := List.mem_map.mp he
  refine ⟨m, hm, ?_⟩
  rcases List.mem_append.mp hr with hr | hr
  · exact .inl (rest_of_apply_lone (hrs hr) ht hx hrun)
  · obtain rfl := List.mem_singleton.mp hr
    exact .inr (Option.some.inj (hrun.symm.trans htext))

end Lone

/-! ## The rules of the notation -/

section Rules

variable {T : Trailer Rule} {depth : Nat}

theorem startsAsEnd_eq_false {names : List (List Char)} {u : List Char}
    (h : startsAsEnd names u = false) {t : List Char} (ht : t ∈ names) :
    startsAsEnd [t] u = false := by
  refine Bool.eq_false_iff.mpr fun h' => ?_
  obtain ⟨_, ht', r, rfl, hr⟩ := startsAsEnd_iff.mp h'
  obtain rfl := List.mem_singleton.mp ht'
  rw [startsAsEnd_append ht hr] at h
  cases h

/-- A choice between rules that are steady but on names alone is steady. -/
theorem steady_choice {rs : List Rule} (hrs : rs ⊆ Rule.picture :: (pathCommands ++ commands))
    (hrule : ∀ r ∈ rs ++ [.text], T.Steady .loose (grammar.apply depth r) ∨
      ∃ t ∈ loneNames, T.SteadyBut t .loose (grammar.apply depth r)) :
    T.Steady .loose ((choice rs).run (grammar.apply depth) .loose) := by
  refine ⟨fun {u} hu => ?_⟩
  cases hlone : startsAsEnd loneNames u with
  | false =>
      refine run_alts_of_closed (R := fun x y => Tied T.line x y ∨
        (Leaves T.lost.holds .loose x ∧ Leaves T.lost.holds .loose y) ∨
          (T.lost.holds u ∧ T.lost.holds (u ++ T.line))) (.inl tied_none)
        (fun ha hb => SettledAt.alt ha hb) fun e he => ?_
      obtain ⟨r, hr, rfl⟩ := List.mem_map.mp he
      rcases hrule r hr with h | ⟨t, ht, h⟩
      · exact h.outcome hu
      · exact h.outcome hu (startsAsEnd_eq_false hlone ht)
  | true =>
      obtain ⟨t, ht, x, rfl, hx⟩ := startsAsEnd_iff.mp hlone
      have hgap : (gap .loose x : Match Rule).rest = [] := hx
      cases depth with
      | zero =>
          have hnone : ∀ s, (choice rs).run (grammar.apply 0) .loose s = none := by
            intro s
            refine run_alts_eq_none fun e he => ?_
            obtain ⟨r, -, rfl⟩ := List.mem_map.mp he
            rfl
          rw [hnone, hnone]
          exact .inl tied_none
      | succ depth =>
          -- in both runs nothing but the blanks and the word is left
          have hleaves : ∀ {y : List Char}, Trails y →
              T.lost.holds (gap .loose y : Match Rule).rest →
                Leaves T.lost.holds .loose
                  ((choice rs).run (grammar.apply (depth + 1)) .loose (t ++ y)) := by
            intro y hy hlost
            obtain ⟨m, hm, ⟨-, hrest⟩ | rfl⟩ := run_choice_lone hrs ht hy depth
            · refine ⟨m, hm, ?_⟩
              rw [hrest, gap_nil]
              exact lost_nil
            · exact ⟨_, hm, hlost⟩
          refine .inr (.inl ⟨hleaves (.of_gap_eq_nil hgap) (hgap ▸ lost_nil), ?_⟩)
          rw [List.append_assoc]
          exact hleaves (.append_line hgap) (gap_line_of_nil hgap ▸ lost_word)

theorem steady_paramList {call : Rule → List Char → Option (Match Rule)}
    (hcall : ∀ r, Splits (call r)) (hparam : T.Steady .loose (call .param)) :
    T.Steady .loose (paramList.run call .loose) := by
  have hlist : paramList = listOf ',' (.rule .param) := rfl
  rw [hlist]
  exact Steady.listOf hcall rfl rfl rfl hparam

variable {ended : Bool}

/-- The rules between which items choose. -/
theorem grade_of_mem_choice : ∀ ended, ∀ r ∈ Rule.picture :: (pathCommands ++ commands) ++ [.text],
    ((survey ended).grade r).settles = true ∨
      ∃ t ∈ loneNames, (survey ended).grade r = .steadyBut t := by
  decide

theorem steady_choice_of_grade {rs : List Rule}
    (hrs : rs ⊆ Rule.picture :: (pathCommands ++ commands))
    (hrule : ∀ r, T.Meets (grammar.kind r).spacing (grammar.apply depth r)
      ((survey ended).grade r)) :
    T.Steady .loose ((choice rs).run (grammar.apply depth) .loose) := by
  refine steady_choice hrs fun r hr => ?_
  have hmeets := (hrule r).loosen
  have hr : r ∈ Rule.picture :: (pathCommands ++ commands) ++ [.text] :=
    (List.mem_append.mp hr).elim (fun h => List.mem_append_left _ (hrs h))
      (List.mem_append_right _)
  rcases grade_of_mem_choice ended r hr with hsettles | ⟨t, ht, hgrade⟩
  · exact .inl (hmeets.steady hsettles)
  · rw [hgrade] at hmeets
    exact .inr ⟨t, ht, hmeets⟩

variable (hbare : (survey ended).bare ⊆ T.bare) (habsent : (survey ended).absent ⊆ T.absent)
  (hlost : T.lost = Rule.lost)

include hlost in
theorem steady_known
    (hrule : ∀ r, T.Meets (grammar.kind r).spacing (grammar.apply depth r)
      ((survey ended).grade r)) :
    ∀ p ∈ (survey ended).known, T.Steady p.1 (p.2.run (grammar.apply depth) p.1) := by
  intro p hp
  simp only [survey, List.mem_cons, List.not_mem_nil, or_false] at hp
  rcases hp with rfl | rfl | rfl | rfl
  · exact steady_paramList (grammar.split_apply depth) (hrule .param)
  · exact steady_text hlost
  · have hsteady : T.Steady .loose ((choice (Rule.picture :: commands)).run
        (grammar.apply depth) .loose) := steady_choice_of_grade (by decide) hrule
    exact ⟨fun hu => by simpa only [run_item] using hsteady.outcome hu⟩
  · have hsteady : T.Steady .loose ((choice (pathCommands ++ commands)).run
        (grammar.apply depth) .loose) := steady_choice_of_grade (by decide) hrule
    exact ⟨fun hu => by simpa only [run_customItem] using hsteady.outcome hu⟩

include hbare habsent hlost

/-- Every rule of the notation meets the line as its grade says. -/
theorem meets_grade (depth : Nat) (r : Rule) :
    T.Meets (grammar.kind r).spacing (grammar.apply depth r) ((survey ended).grade r) :=
  Survey.meets_apply (fits_grammar ended) hbare habsent hlost
    (fun _ hrule => steady_known hlost hrule) depth r

/-- Every expression of the notation meets the line as its computed grade says. -/
theorem meets_gradeOf_survey (depth : Nat) (sp : Spacing) (e : Expr Rule) :
    T.Meets sp (e.run (grammar.apply depth) sp) ((survey ended).gradeOf grammar.kind sp e) :=
  Survey.meets_gradeOf (fits_grammar ended) hbare habsent hlost
    (meets_grade hbare habsent hlost depth)
    (steady_known hlost (meets_grade hbare habsent hlost depth)) sp e

end Rules

end PictureTree
