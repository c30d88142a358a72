/-
# `Proofs.Document.Pieces` — a phrase piece by piece

The parts of a phrase may stand apart.  A text is spread over some pieces if it
consists of them, in order, with blanks and complete comments in front of each
and behind the last.  What an expression of a phrase does with a text can then
be said of the pieces alone:

    some pieces are next in a text             `Ahead`
    it takes some of them and leaves others    `Takes`
    it finds nothing that it knows             `Refuses`

and the last two are shown part by part, whatever stands between the pieces.
-/
import PictureTree.Proofs.Document.Sources
import PictureTree.Proofs.Grammar.Openings
import PictureTree.Proofs.Grammar.Running

namespace PictureTree

open PictureTree.Expr Rule Trailer

/-! ## Spread texts -/

/-- A text that starts with a character that nothing skips. -/
def Solid (p : List Char) : Prop := ∃ c t, p = c :: t ∧ isSolid c = true

theorem solid_iff (p : List Char) : Solid p ↔ p.head?.any isSolid = true := by
  cases p with
  | nil => exact ⟨fun ⟨_, _, h, _⟩ => (List.cons_ne_nil _ _ h.symm).elim, nofun⟩
  | cons c p =>
      constructor
      · rintro ⟨d, q, hcons, hd⟩
        obtain ⟨rfl, -⟩ := List.cons.inj hcons
        exact hd
      · intro hc
        exact ⟨c, p, rfl, hc⟩

instance (p : List Char) : Decidable (Solid p) := decidable_of_iff _ (solid_iff p).symm

/-- The text of some pieces, with blanks and complete comments in front of each and behind
the last. -/
inductive Spread : List (List Char) → List Char → Prop
  | nil {u : List Char} (hu : Closed u) : Spread [] u
  | cons {u p s : List Char} {ps : List (List Char)} (hu : Closed u) (hp : Solid p)
      (hs : Spread ps s) : Spread (p :: ps) (u ++ (p ++ s))

namespace Spread

variable {ps qs : List (List Char)} {p s t u : List Char}

theorem closed_append (hu : Closed u) (hs : Spread ps s) : Spread ps (u ++ s) := by
  cases hs with
  | nil hv => exact .nil (hu.append hv)
  | cons hv hp hs =>
      rw [← List.append_assoc]
      exact .cons (hu.append hv) hp hs

theorem append (hs : Spread ps s) (ht : Spread qs t) : Spread (ps ++ qs) (s ++ t) := by
  induction hs with
  | nil hu => exact closed_append hu ht
  | cons hu hp hs ih =>
      rw [List.append_assoc, List.append_assoc]
      exact .cons hu hp ih

/-- Nothing needs to stand between the pieces. -/
theorem flatten (h : ∀ p ∈ ps, Solid p) : Spread ps ps.flatten := by
  induction ps with
  | nil => exact .nil .nil
  | cons p ps ih =>
      exact .cons .nil (h p List.mem_cons_self) (ih fun q hq => h q (List.mem_cons_of_mem _ hq))

/-- A comment may stand between any two pieces. -/
theorem append_comment {c : List Char} (hs : Spread ps s) (ht : Spread qs t)
    (hc : ∀ x ∈ c, isLineEnd x = false) :
    Spread (ps ++ qs) (s ++ '%' :: (c ++ '\n' :: t)) := by
  have hcomment : Closed ('%' :: (c ++ ['\n'])) := .comment hc rfl .nil
  have h := hs.append (closed_append hcomment ht)
  simpa using h

end Spread

/-! ## The pieces ahead -/

/-- Some pieces are next in a text, and behind them another text, its blanks and comments
aside. -/
def Ahead (tail : List Char) (ps : List (List Char)) (s : List Char) : Prop :=
  ∃ t v, s = t ++ v ∧ Spread ps t ∧
    (gap .loose v : Match Rule).rest = (gap .loose tail : Match Rule).rest

/-- The first solid character of the pieces, or else of what is behind them. -/
def next (tail : List Char) : List (List Char) → Option Char
  | [] => (gap .loose tail : Match Rule).rest.head?
  | p :: _ => p.head?

theorem Spread.ahead {ps : List (List Char)} {s : List Char} (h : Spread ps s)
    (tail : List Char) : Ahead tail ps (s ++ tail) :=
  ⟨s, tail, rfl, h, rfl⟩

namespace Ahead

variable {tail p s t : List Char} {ps : List (List Char)}

theorem gap_nil (h : Ahead tail [] s) :
    (gap .loose s : Match Rule).rest = (gap .loose tail : Match Rule).rest := by
  obtain ⟨t, v, rfl, hspread, htail⟩ := h
  cases hspread with
  | nil hu => rw [hu.rest_gap_append, htail]

/-- A gap ends at the first piece. -/
theorem exists_gap (h : Ahead tail (p :: ps) s) :
    ∃ t, (gap .loose s : Match Rule).rest = p ++ t ∧ Ahead tail ps t := by
  obtain ⟨t, v, rfl, hspread, htail⟩ := h
  cases hspread with
  | @cons u _ t _ hu hp ht =>
      obtain ⟨c, p, rfl, hc⟩ := hp
      refine ⟨t ++ v, ?_, t, v, rfl, ht, htail⟩
      rw [List.append_assoc, hu.rest_gap_append, List.append_assoc, List.cons_append,
        gap_of_isSolid hc]
      rfl

theorem solid (h : Ahead tail (p :: ps) s) : Solid p := by
  obtain ⟨t, v, -, hspread, -⟩ := h
  cases hspread with
  | cons hu hp hs => exact hp

theorem cons (hp : Solid p) (h : Ahead tail ps s) : Ahead tail (p :: ps) (p ++ s) := by
  obtain ⟨t, v, rfl, hspread, htail⟩ := h
  exact ⟨p ++ t, v, (List.append_assoc _ _ _).symm, .cons .nil hp hspread, htail⟩

/-- Behind the gap the same pieces are next. -/
theorem rest_gap (h : Ahead tail ps s) : Ahead tail ps (gap .loose s : Match Rule).rest := by
  cases ps with
  | nil => exact ⟨[], _, rfl, .nil .nil, (gap_rest_gap s).trans h.gap_nil⟩
  | cons p ps =>
      obtain ⟨t, ht, hrest⟩ := h.exists_gap
      rw [ht]
      exact .cons h.solid hrest

theorem head?_gap (h : Ahead tail ps s) :
    (gap .loose s : Match Rule).rest.head? = next tail ps := by
  cases ps with
  | nil =>
      rw [h.gap_nil]
      rfl
  | cons p ps =>
      obtain ⟨t, ht, -⟩ := h.exists_gap
      obtain ⟨c, p, rfl, -⟩ := h.solid
      rw [ht]
      rfl

end Ahead

/-! ## Taking and refusing pieces -/

section Pieces

variable {a b e : Expr Rule} {r : Rule} {tail p : List Char} {ps qs rs : List (List Char)}
  {P Q : List (Node Rule) → Prop}

/-- Whatever stands between the pieces, an expression takes some, leaves others and makes
certain nodes. -/
def Takes (tail : List Char) (e : Expr Rule) (ps qs : List (List Char))
    (P : List (Node Rule) → Prop) : Prop :=
  ∀ s, Ahead tail ps s → ∃ m,
    e.run grammar.start? .loose (gap .loose s : Match Rule).rest = some m ∧
      Ahead tail qs m.rest ∧ P m.nodes

/-- Whatever stands between the pieces, an expression does not match. -/
def Refuses (tail : List Char) (e : Expr Rule) (ps : List (List Char)) : Prop :=
  ∀ s, Ahead tail ps s → e.run grammar.start? .loose (gap .loose s : Match Rule).rest = none

/-- The nodes of a sequence. -/
def Both (P Q : List (Node Rule) → Prop) (ns : List (Node Rule)) : Prop :=
  ∃ xs ys, ns = xs ++ ys ∧ P xs ∧ Q ys

/-- No nodes. -/
def NoNodes (ns : List (Node Rule)) : Prop := ns = []

theorem Takes.mono (h : Takes tail e ps qs P) (hPQ : ∀ ns, P ns → Q ns) :
    Takes tail e ps qs Q := by
  intro s hs
  obtain ⟨m, hm, hrest, hP⟩ := h s hs
  exact ⟨m, hm, hrest, hPQ _ hP⟩

/-- A piece is taken as a whole if it is matched as such, whatever is behind it. -/
theorem takes_piece (h : ∀ t, Ahead tail ps t →
      ∃ m, e.run grammar.start? .loose (p ++ t) = some m ∧ m.rest = t ∧ P m.nodes) :
    Takes tail e (p :: ps) ps P := by
  intro s hs
  obtain ⟨t, ht, hrest⟩ := hs.exists_gap
  obtain ⟨m, hm, rfl, hP⟩ := h t hrest
  rw [ht]
  exact ⟨m, hm, hrest, hP⟩

theorem takes_word (w : String) : Takes tail (word w) (w.toList :: ps) ps NoNodes :=
  takes_piece fun t _ => ⟨_, run_lit_append w.toList t, rfl, rfl⟩

/-- A rule that starts with a character refuses pieces that start with another. -/
theorem refuses_of_next {n : Nat} {c : Char} (hr : (grammar.openings n r).any
      (fun os => os.all fun o => o.text.head? = some c) = true)
    (hnext : next tail ps ≠ some c) : Refuses tail (.rule r) ps := by
  intro s hs
  refine Grammar.start?_eq_none_of_head hr ?_
  rwa [hs.head?_gap]

theorem refuses_word {w : String} {c : Char} (hw : w.toList.head? = some c)
    (hnext : next tail ps ≠ some c) : Refuses tail (word w) ps := by
  intro s hs
  refine Option.eq_none_iff_forall_ne_some.mpr ?_
  intro m hm
  obtain ⟨rest, hrest, -⟩ := Option.map_eq_some_iff.mp hm
  obtain ⟨t, ht⟩ := List.head?_eq_some_iff.mp hw
  refine hnext ?_
  rw [← hs.head?_gap, Text.after?_eq_some.mp hrest, ht]
  rfl

theorem Takes.seq (ha : Takes tail a ps qs P) (hb : Takes tail b qs rs Q) :
    Takes tail (.seq a b) ps rs (Both P Q) := by
  intro s hs
  obtain ⟨m, hm, hrest, hP⟩ := ha s hs
  obtain ⟨n, hn, hrest', hQ⟩ := hb m.rest hrest
  refine ⟨join .loose m n, run_seq_join hm hn, hrest', m.nodes, n.nodes, ?_, hP, hQ⟩
  simp [join, nodes_gap]

theorem Refuses.seq (ha : Refuses tail a ps) : Refuses tail (.seq a b) ps := by
  intro s hs
  exact run_seq_of_none (ha s hs)

theorem Takes.seq_refuses (ha : Takes tail a ps qs P) (hb : Refuses tail b qs) :
    Refuses tail (.seq a b) ps := by
  intro s hs
  obtain ⟨m, hm, hrest, -⟩ := ha s hs
  rw [run_seq_of_some hm, hb m.rest hrest]
  rfl

theorem Takes.alt (ha : Takes tail a ps qs P) : Takes tail (.alt a b) ps qs P := by
  intro s hs
  obtain ⟨m, hm, hrest, hP⟩ := ha s hs
  exact ⟨m, run_alt_of_some hm, hrest, hP⟩

theorem Refuses.alt (ha : Refuses tail a ps) (hb : Takes tail b ps qs P) :
    Takes tail (.alt a b) ps qs P := by
  intro s hs
  obtain ⟨m, hm, hrest, hP⟩ := hb s hs
  exact ⟨m, (run_alt_of_none (ha s hs)).trans hm, hrest, hP⟩

theorem Refuses.alt_refuses (ha : Refuses tail a ps) (hb : Refuses tail b ps) :
    Refuses tail (.alt a b) ps := by
  intro s hs
  exact (run_alt_of_none (ha s hs)).trans (hb s hs)

theorem Takes.opt (h : Takes tail e ps qs P) : Takes tail (.opt e) ps qs P := by
  intro s hs
  obtain ⟨m, hm, hrest, hP⟩ := h s hs
  exact ⟨m, run_opt_of_some hm, hrest, hP⟩

theorem Refuses.opt (h : Refuses tail e ps) : Takes tail (.opt e) ps ps NoNodes := by
  intro s hs
  exact ⟨_, run_opt_of_none (h s hs), hs.rest_gap, rfl⟩

/-- A phrase takes what its expression takes. -/
theorem Takes.rule (hr : r.kind.spacing = .loose) (h : Takes tail (expr r) ps qs P) :
    Takes tail (.rule r) ps qs
      fun ns => ∃ t parts, ns = [.mk r t (r.kind.shown parts)] ∧ P parts := by
  intro s hs
  obtain ⟨m, hm, hrest, hP⟩ := h s hs
  refine ⟨m.wrap r.kind r, ?_, hrest, m.taken, m.nodes, Match.nodes_wrap r.kind r m, hP⟩
  rw [Expr.run, start?_eq_run, hr, hm]
  rfl

theorem Refuses.rule (hr : r.kind.spacing = .loose) (h : Refuses tail (expr r) ps) :
    Refuses tail (.rule r) ps := by
  intro s hs
  rw [Expr.run, start?_eq_run, hr, h s hs]
  rfl

/-! ## Repetitions of pieces -/

/-- As many repetitions as there are. -/
def TakesMany (tail : List Char) (e : Expr Rule) (ps qs : List (List Char))
    (P : List (Node Rule) → Prop) : Prop :=
  ∀ s, Ahead tail ps s →
    Ahead tail qs (repetitions (e.run grammar.start? .loose) .loose s).rest ∧
      P (repetitions (e.run grammar.start? .loose) .loose s).nodes

theorem Refuses.many (h : Refuses tail e ps) : TakesMany tail e ps ps NoNodes := by
  intro s hs
  rw [repetitions_of_none (h s hs)]
  exact ⟨hs, rfl⟩

theorem TakesMany.more (he : (Region.empty consuming).left e = true) (ha : Takes tail e ps qs P)
    (hb : TakesMany tail e qs rs Q) : TakesMany tail e ps rs (Both P Q) := by
  intro s hs
  obtain ⟨m, hm, hrest, hP⟩ := ha s hs
  obtain ⟨hrest', hQ⟩ := hb m.rest hrest
  rw [repetitions_of_some (consumes_start?_of_left consuming_bounds he) hm]
  refine ⟨hrest', m.nodes, _, ?_, hP, hQ⟩
  simp [nodes_gap]

theorem TakesMany.star (he : (Region.empty consuming).left e = true)
    (h : TakesMany tail e ps qs P) : Takes tail (.star e) ps qs P := by
  intro s hs
  obtain ⟨hrest, hP⟩ := h s hs
  cases hm : e.run grammar.start? .loose (gap .loose s : Match Rule).rest with
  | none =>
      rw [repetitions_of_none hm] at hrest hP
      exact ⟨_, run_star_of_none hm, hrest.rest_gap, hP⟩
  | some m =>
      rw [repetitions_of_some (consumes_start?_of_left consuming_bounds he) hm] at hrest hP
      refine ⟨_, run_star_of_some hm, hrest, ?_⟩
      simpa [nodes_gap] using hP

end Pieces

end PictureTree
