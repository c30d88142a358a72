/-
# `Proofs.Document.Assignments` — settings as they are written

A setting is written as a key, with or without an equals sign and a value behind it.
Which text is the value is not told by the value alone but by what is behind it as well:

    a value             commas and closing brackets stand inside of groups only, and
                        all its groups are closed (`IsValue`)
    the longest value   no value goes on behind it (`Assignment.EndsAt`)

The node of a setting is what stands there (`exists_assignment`), and a list of such
nodes is a list of assignments one behind the other (`Assigned`).  The value that is kept
has been trimmed and has lost an outer pair of braces (`Unwrapped`).
-/
import PictureTree.Proofs.Document.Recognized
import PictureTree.Proofs.Grammar.Standing
import PictureTree.Proofs.Text.Unbracing

namespace PictureTree

/-! ## Assignments -/

/-- A setting as it is written: the key, and the value behind the equals sign, if there is one,
with blanks and comments behind the key and in front of the value. -/
inductive Assignment where
  | bare (key gap : List Char)
  | valued (key before after value : List Char)

namespace Assignment

/-- The text of an assignment. -/
def text : Assignment → List Char
  | bare key gap => key ++ gap
  | valued key before after value => key ++ (before ++ ('=' :: (after ++ value)))

/-- What is read of an assignment. -/
def param : Assignment → Param
  | bare key _ => ⟨String.ofList key, ""⟩
  | valued key _ _ value =>
      ⟨String.ofList key, Text.trimmed (Text.unbrace (Text.trim value))⟩

/-- The text is an assignment in front of another text, and no longer text there is one. -/
inductive EndsAt (s : List Char) : Assignment → Prop
  | bare {key gap : List Char} (hkey : IsKey key) (hgap : Trivia gap)
      (hend : s.head? ≠ some '=') : EndsAt s (bare key gap)
  | valued {key before after value : List Char} (hkey : IsKey key) (hbefore : Trivia before)
      (hafter : Trivia after) (hstart : ∀ c ∈ (value ++ s).head?, isSolid c = true)
      (hvalue : IsValue value) (hend : ∀ u v, s = u ++ v → IsValue (value ++ u) → u = []) :
      EndsAt s (valued key before after value)

end Assignment

/-- Assignments one behind the other in a text. -/
inductive Assigned : List Assignment → List Char → Prop
  | nil (s : List Char) : Assigned [] s
  | cons (x : List Char) {s : List Char} {a : Assignment} {as : List Assignment}
      (ha : a.EndsAt s) (has : Assigned as s) : Assigned (a :: as) (x ++ (a.text ++ s))

open PictureTree.Expr Rule Trailer

/-! ## Values -/

namespace IsValue

variable {s t u v : List Char}

/-- A value is balanced. -/
theorem balanced (h : IsValue v) : Balanced v := by
  induction h with
  | nil => exact .nil
  | @char c v hc hv ih =>
      have hbrace : c ≠ '{' ∧ c ≠ '}' := by
        constructor <;> rintro rfl <;> exact hc (by decide)
      rw [balanced_iff, braceDepth_cons_of_ne hbrace.1 hbrace.2]
      exact ih.braceDepth 0
  | @group t v ht hv ih =>
      rw [balanced_iff, braceDepth_opening, braceDepth_append, ht.braceDepth, Option.bind_some,
        braceDepth_closing_succ]
      exact ih.braceDepth 0

theorem of_char {c : Char} (hc : c ∉ [',', ']', '{', '}']) (h : IsValue (c :: v)) : IsValue v := by
  cases h with
  | char _ h => exact h
  | group _ _ => exact absurd (by decide) hc

theorem of_group (ht : Balanced t) (h : IsValue ('{' :: (t ++ '}' :: v))) : IsValue v := by
  generalize hw : '{' :: (t ++ '}' :: v) = w at h
  cases h with
  | nil => cases hw
  | char hc _ =>
      obtain ⟨rfl, -⟩ := List.cons.inj hw
      exact absurd (by decide) hc
  | group ht' h =>
      obtain ⟨-, rfl⟩ := ht.eq_of_closing ht' (List.cons.inj hw).2
      exact h

/-- What goes on behind a value as part of a longer one is a value. -/
theorem of_append (hv : IsValue v) (h : IsValue (v ++ u)) : IsValue u := by
  induction hv with
  | nil => exact h
  | char hc hv ih => exact ih (of_char hc h)
  | group ht hv ih =>
      rw [List.cons_append, List.append_assoc] at h
      exact ih (of_group ht h)

/-- A value that is not empty has a part at its start. -/
theorem run_valuePart (h : IsValue u) (hne : u ≠ []) (s : List Char) :
    valuePart.run grammar.start? .tight (u ++ s) ≠ none := by
  intro hnone
  cases h with
  | nil => exact hne rfl
  | @char c u hc _ =>
      have hgroup : (Expr.rule .bracedText).run grammar.start? .tight (c :: u ++ s) = none :=
        start?_bracedText_of_ne (fun heq => hc (by rw [heq]; decide)) _
      have htest : CharClass.test (.except [',', ']', '\x7b', '\x7d']) c = true := by
        simpa [CharClass.test] using hc
      rw [run_alt_of_none hgroup, List.cons_append, Expr.run, if_pos htest] at hnone
      cases hnone
  | @group t v ht _ =>
      have hgroup : (Expr.rule .bracedText).run grammar.start? .tight
          ('{' :: (t ++ '}' :: (v ++ s))) = some _ :=
        start?_bracedText ht (v ++ s)
      rw [List.cons_append, List.append_assoc, List.cons_append, run_alt_of_some hgroup] at hnone
      cases hnone

end IsValue

/-! ## Nodes of settings -/

/-- What the rule of values takes is the longest value, and there is always one. -/
theorem start?_paramValue (s : List Char) : ∃ v r, s = v ++ r ∧ IsValue v ∧
    (∀ u w, r = u ++ w → IsValue (v ++ u) → u = []) ∧
    grammar.start? .paramValue s = some ⟨v, r, [.mk .paramValue v []]⟩ := by
  have hspacing : Rule.paramValue.kind.spacing = .tight := rfl
  have hbody : expr .paramValue = .star valuePart := rfl
  obtain ⟨hvalue, hnone⟩ := Reads.isValue_repetitions s
  obtain ⟨m, hm⟩ : ∃ m, repetitions (valuePart.run grammar.start? .tight) .tight s = m := ⟨_, rfl⟩
  have hstart : grammar.start? .paramValue s = some (m.wrap .token .paramValue) := by
    rw [start?_eq_run, hspacing, hbody, run_star_tight consumes_valuePart, hm]
    rfl
  have hsplit : m.taken ++ m.rest = s := by
    have h := grammar.splits_start? .paramValue hstart
    rwa [Match.taken_wrap, Match.rest_wrap] at h
  rw [hm] at hvalue hnone
  refine ⟨m.taken, m.rest, hsplit.symm, hvalue, ?_, hstart⟩
  intro u w hrest hlonger
  by_contra hne
  rw [hrest] at hnone
  exact (hvalue.of_append hlonger).run_valuePart hne w hnone

theorem exists_of_start?_paramKey {s : List Char} {m : Match Rule}
    (h : grammar.start? .paramKey s = some m) :
    ∃ k, IsKey k ∧ m = ⟨k, m.rest, [.mk .paramKey k []]⟩ := by
  have hspacing : (grammar.kind .paramKey).spacing = .tight := rfl
  obtain ⟨ns, hbody, hnodes⟩ :=
    (Grammar.derives_start? h : grammar.Derives .tight _ _ _).exists_of_rule
  rw [hspacing] at hbody
  obtain ⟨first, rest, _, _, htaken, hfirst, hrest⟩ := hbody.exists_of_tight_seq
  obtain ⟨c, hc, rfl, -⟩ := hfirst.exists_of_one
  refine ⟨m.taken, ⟨c, rest, htaken, hc, hrest.forall_of_tight_star⟩, ?_⟩
  obtain ⟨taken, rest, nodes⟩ := m
  exact congrArg (Match.mk taken rest) hnodes

/-- What is behind the key of a setting, if it has a value. -/
abbrev valuePhrase : Expr Rule := .seq (word "=") (.rule .paramValue)

/-- Behind an equals sign there is a value. -/
theorem run_valuePhrase (s : List Char) : ∃ v r, (gap .loose s : Match Rule).rest = v ++ r ∧
    IsValue v ∧ (∀ u w, r = u ++ w → IsValue (v ++ u) → u = []) ∧
    valuePhrase.run grammar.start? .loose ('=' :: s)
      = some ⟨'=' :: ((gap .loose s : Match Rule).taken ++ v), r, [.mk .paramValue v []]⟩ := by
  obtain ⟨v, r, hrest, hv, hlongest, hvalue⟩ := start?_paramValue (gap .loose s : Match Rule).rest
  have hequals : (word "=").run grammar.start? .loose ('=' :: s) = some ⟨['='], s, []⟩ := rfl
  have hrule : (Expr.rule Rule.paramValue).run grammar.start? .loose
      (gap .loose s : Match Rule).rest = some ⟨v, r, [.mk .paramValue v []]⟩ := hvalue
  refine ⟨v, r, hrest, hv, hlongest, ?_⟩
  rw [run_seq_join hequals hrule]
  simp only [join, nodes_gap, (· ++ ·), Append.append, Match.append]
  simp

theorem run_valuePhrase_eq_none {s : List Char} (h : s.head? ≠ some '=') :
    valuePhrase.run grammar.start? .loose s = none := by
  refine run_seq_of_none (Option.eq_none_iff_forall_ne_some.mpr ?_)
  intro m hm
  obtain ⟨rest, hrest, -⟩ := Option.map_eq_some_iff.mp hm
  exact h (by rw [Text.after?_eq_some.mp hrest]; rfl)

/-- The node of a setting is read as what is written there. -/
theorem exists_assignment {t s : List Char} {parts : List (Node Rule)}
    (h : grammar.start? .param (t ++ s) = some ⟨t, s, [.mk .param t parts]⟩) :
    ∃ a : Assignment, a.text = t ∧ a.EndsAt s ∧ a.param = Node.param (.mk .param t parts) := by
  have hspacing : Rule.param.kind.spacing = .loose := rfl
  have hbody : expr .param = .seq (.rule .paramKey) (.opt valuePhrase) := rfl
  rw [start?_eq_run, hspacing, hbody, run_seq] at h
  obtain ⟨m, hm, hwrap⟩ := Option.map_eq_some_iff.mp h
  obtain ⟨k, hk, hm⟩ := Option.bind_eq_some_iff.mp hm
  obtain ⟨n, hn, rfl⟩ := Option.map_eq_some_iff.mp hm
  obtain ⟨key, hkey, hkeq⟩ := exists_of_start?_paramKey hk
  obtain ⟨r, hr⟩ : ∃ r, k.rest = r := ⟨_, rfl⟩
  rw [hr] at hkeq hn
  subst hkeq
  have hbefore : Trivia (gap .loose r : Match Rule).taken := between_gap .loose r
  -- what the node has, by what the match has
  have htaken : key ++ ((gap .loose r : Match Rule).taken ++ n.taken) = t :=
    congrArg Match.taken hwrap
  have hrest : n.rest = s := congrArg Match.rest hwrap
  obtain ⟨-, hparts⟩ : t = _ ∧ parts = .mk .paramKey key [] :: n.nodes := by
    have h := congrArg Match.nodes hwrap
    simp only [Match.nodes_wrap, RuleKind.shown, Rule.kind, nodes_join] at h
    simpa using h.symm
  by_cases hequals : (gap .loose r : Match Rule).rest.head? = some '='
  · obtain ⟨q, hq⟩ := List.head?_eq_some_iff.mp hequals
    obtain ⟨v, w, hgap, hv, hlongest, hvalue⟩ := run_valuePhrase q
    rw [hq, run_opt_of_some hvalue] at hn
    obtain rfl := Option.some.inj hn
    obtain rfl : w = s := hrest
    refine ⟨.valued key (gap .loose r : Match Rule).taken (gap .loose q : Match Rule).taken v,
      htaken, ?_, ?_⟩
    · refine .valued hkey hbefore (between_gap .loose q) ?_ hv hlongest
      intro c hc
      rw [← hgap] at hc
      exact isSolid_of_head_gap hc
    · rw [hparts]
      rfl
  · rw [run_opt_of_none (run_valuePhrase_eq_none hequals)] at hn
    obtain rfl := Option.some.inj hn
    obtain rfl : (gap .loose r : Match Rule).rest = s := hrest
    refine ⟨.bare key (gap .loose r : Match Rule).taken, ?_, .bare hkey hbefore hequals, ?_⟩
    · rw [Match.taken_nothing, List.append_nil] at htaken
      exact htaken
    · rw [hparts]
      rfl

/-! ## Settings in a text -/

/-- Where nodes of settings stand, there are assignments that say the same. -/
theorem exists_assigned {ns : List (Node Rule)} {s r : List Char} (h : Stands grammar ns s r)
    (hrules : ∀ n ∈ ns, n.rule = .param) :
    ∃ as, Assigned as s ∧ as.map Assignment.param = ns.map Node.param := by
  induction h with
  | done x r => exact ⟨[], .nil _, rfl⟩
  | @next k x t s r parts ns hstart hns ih =>
      obtain ⟨hrule, hrest⟩ := List.forall_mem_cons.mp hrules
      obtain rfl : k = .param := hrule
      obtain ⟨as, has, hparams⟩ := ih hrest
      obtain ⟨a, rfl, hends, hparam⟩ := exists_assignment hstart
      refine ⟨a :: as, .cons x hends has, ?_⟩
      rw [List.map_cons, List.map_cons, hparam, hparams]

theorem Assigned.isValue {as : List Assignment} {s : List Char} (h : Assigned as s) :
    ∀ {key before after value : List Char},
      .valued key before after value ∈ as → IsValue value := by
  induction h with
  | nil s => exact nofun
  | cons x ha has ih =>
      intro key before after value hmem
      rcases List.mem_cons.mp hmem with rfl | hmem
      · cases ha with
        | valued _ _ _ _ hvalue _ => exact hvalue
      · exact ih hmem

/-! ## Values that are kept -/

/-- How the value of a setting is kept: it is balanced, and is the trimmed text without an
outer pair of braces if the whole text is one group, unless the text starts with one group
and ends with another. -/
structure Unwrapped (value : List Char) (kept : String) : Prop where
  nested : Balanced kept.toList ↔ ¬ Mismatched (Text.trim value)
  group : ∀ t, IsGroup t (Text.trim value) → kept = Text.trimmed t
  plain : ¬ Mismatched (Text.trim value) → (∀ t, ¬ IsGroup t (Text.trim value)) →
    kept = Text.trimmed value

theorem IsValue.unwrapped {v : List Char} (h : IsValue v) :
    Unwrapped v (Text.trimmed (Text.unbrace (Text.trim v))) := by
  have hbalanced : Balanced (Text.trim v) := (Balanced.trim_iff v).mpr h.balanced
  constructor
  · rw [Text.trimmed, String.toList_ofList, Balanced.trim_iff]
    exact hbalanced.unbrace_iff
  · intro t ht
    rw [ht.unbrace_eq]
  · intro hmatched hgroup
    rcases hbalanced.group_or with ⟨t, ht⟩ | hmismatched | hsame
    · exact absurd ht (hgroup t)
    · exact absurd hmismatched hmatched
    · rw [hsame, Text.trimmed, Text.trimmed, Text.trim_trim]

end PictureTree
