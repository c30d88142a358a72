/-
# `Proofs.Grammar.Standing` — where the nodes of a match stand

A node keeps the text that its rule took, but neither the place nor what was behind
it, and a rule that looks as far as it can is known by what it left as well.  Both can
be told of the match of a whole text.  Some nodes stand in a text, in front of another,
if one comes behind the other and each is what its rule matches where it stands:

    s  =  …  t₁  …  t₂  …  tₙ  …  r        `Stands g [n₁, n₂, …, nₙ] s r`

The nodes of a match stand in the text that it started with (`stands_start?`), and so
do those inside them, as deep as one likes, as long as none is inside another that is
counted too.
-/
import PictureTree.Proofs.Grammar.Fixpoint

namespace PictureTree

variable {ρ : Type}

/-! ## Nodes in a text -/

/-- Nodes one behind the other in a text, up to what is left of it; each is what its
rule matches in front of all that stands behind it. -/
inductive Stands (g : Grammar ρ) : List (Node ρ) → List Char → List Char → Prop
  | done (x r : List Char) : Stands g [] (x ++ r) r
  | next {r : ρ} {x t s u : List Char} {parts ns : List (Node ρ)}
      (h : g.start? r (t ++ s) = some ⟨t, s, [.mk r t parts]⟩) (hns : Stands g ns s u) :
      Stands g (.mk r t parts :: ns) (x ++ (t ++ s)) u

namespace Stands

variable {g : Grammar ρ} {ns ms : List (Node ρ)} {s t r : List Char}

theorem shift (x : List Char) (h : Stands g ns s r) : Stands g ns (x ++ s) r := by
  cases h with
  | done y r =>
      rw [← List.append_assoc]
      exact .done (x ++ y) r
  | next h hns =>
      rw [← List.append_assoc]
      exact .next h hns

theorem append (hs : Stands g ns s t) (ht : Stands g ms t r) : Stands g (ns ++ ms) s r := by
  induction hs with
  | done x t => exact ht.shift x
  | next h _ ih => exact .next h (ih ht)

/-- Nodes may be left out. -/
theorem sublist (h : Stands g ns s r) (hms : ms.Sublist ns) : Stands g ms s r := by
  induction h generalizing ms with
  | done x r =>
      obtain rfl := List.sublist_nil.mp hms
      exact .done x r
  | @next k x t s u parts ns h hns ih =>
      cases hms with
      | cons _ hms =>
          rw [← List.append_assoc]
          exact (ih hms).shift _
      | cons_cons _ hms => exact .next h (ih hms)

theorem nothing (s : List Char) : Stands g [] s s := .done [] s

theorem gap (sp : Spacing) (s : List Char) : Stands g [] s (gap sp s : Match ρ).rest := by
  have h := Stands.done (g := g) (PictureTree.gap sp s : Match ρ).taken
    (PictureTree.gap sp s : Match ρ).rest
  rwa [split_gap] at h

end Stands

/-! ## Nodes inside nodes -/

mutual

/-- The nodes of some rules inside a node, in order, each without those inside it. -/
def Node.outermost (p : ρ → Bool) : Node ρ → List (Node ρ)
  | .mk r t parts => if p r then [.mk r t parts] else Node.outermostAll p parts

/-- The nodes of some rules inside nodes, in order, each without those inside it. -/
def Node.outermostAll (p : ρ → Bool) : List (Node ρ) → List (Node ρ)
  | [] => []
  | n :: ns => n.outermost p ++ Node.outermostAll p ns

end

theorem Node.outermostAll_append (p : ρ → Bool) (ns ms : List (Node ρ)) :
    outermostAll p (ns ++ ms) = outermostAll p ns ++ outermostAll p ms := by
  induction ns with
  | nil => rfl
  | cons n ns ih => rw [List.cons_append, outermostAll, outermostAll, ih, List.append_assoc]

mutual

theorem Node.of_mem_outermost {p : ρ → Bool} {r : ρ} {t : List Char} {parts : List (Node ρ)} :
    ∀ n : Node ρ, .mk r t parts ∈ n.outermost p → p r = true
  | .mk r' t' parts', h => by
      rw [outermost] at h
      split at h
      · next hr =>
          obtain ⟨rfl, -⟩ := Node.mk.inj (List.mem_singleton.mp h)
          exact hr
      · exact Node.of_mem_outermostAll parts' h

/-- The nodes are those of the rules. -/
theorem Node.of_mem_outermostAll {p : ρ → Bool} {r : ρ} {t : List Char} {parts : List (Node ρ)} :
    ∀ ns : List (Node ρ), .mk r t parts ∈ outermostAll p ns → p r = true
  | [], h => by cases h
  | n :: ns, h => by
      rw [outermostAll] at h
      rcases List.mem_append.mp h with h | h
      · exact Node.of_mem_outermost n h
      · exact Node.of_mem_outermostAll ns h

end

/-! ## Matches -/

section Matches

variable {g : Grammar ρ} {p : ρ → Bool}

/-- The nodes inside a match stand in the text that it started with. -/
def Match.StandsIn (g : Grammar ρ) (p : ρ → Bool) (s : List Char) (m : Match ρ) : Prop :=
  Stands g (Node.outermostAll p m.nodes) s m.rest

theorem standsIn_repeated {step : List Char → Option (Match ρ)}
    (hstep : ∀ {s m}, step s = some m → m.StandsIn g p s) (sp : Spacing) (bound : Nat)
    (s : List Char) : (repeated step sp bound s).StandsIn g p s := by
  fun_induction repeated step sp bound s with
  | case1 s => exact .nothing s
  | case2 bound s first hnone => exact .nothing s
  | case3 bound s first m hm ih =>
      have hfirst : first.nodes = [] := by
        simp only [first]
        cases sp <;> rfl
      simp only [Match.StandsIn, Match.nodes_append, Match.rest_append, hfirst, List.nil_append,
        Node.outermostAll_append]
      exact (Stands.gap sp s).append ((hstep hm).append ih)

theorem standsIn_run {call : ρ → List Char → Option (Match ρ)}
    (hcall : ∀ {r s m}, call r s = some m → m.StandsIn g p s) {sp : Spacing} {e : Expr ρ}
    {s : List Char} {m : Match ρ} (h : e.run call sp s = some m) : m.StandsIn g p s := by
  induction e generalizing s m with
  | lit t =>
      obtain ⟨rest, hrest, rfl⟩ := Option.map_eq_some_iff.mp h
      rw [Text.after?_eq_some.mp hrest]
      exact .done t rest
  | one q =>
      cases s with
      | nil => cases h
      | cons c s =>
          obtain ⟨-, rfl⟩ : q.test c = true ∧ _ = m := by simpa [Expr.run] using h
          exact .done [c] s
  | rule r => exact hcall h
  | seq a b iha ihb =>
      simp only [Expr.run, bind, Option.bind_eq_some_iff, pure, Option.some.injEq] at h
      obtain ⟨m, hm, n, hn, rfl⟩ := h
      have hgap : (gap sp m.rest : Match ρ).nodes = [] := by cases sp <;> rfl
      simp only [Match.StandsIn, Match.nodes_append, Match.rest_append, hgap, List.nil_append,
        Node.outermostAll_append]
      exact (iha hm).append ((Stands.gap sp m.rest).append (ihb hn))
  | alt a b iha ihb =>
      cases ha : a.run call sp s with
      | none => exact ihb (by simpa [Expr.run, ha] using h)
      | some m' =>
          obtain rfl : m' = m := by simpa [Expr.run, ha] using h
          exact iha ha
  | opt e ih =>
      obtain rfl := Option.some.inj h
      cases he : e.run call sp s with
      | none => exact .nothing s
      | some m => exact ih he
  | star e ih =>
      cases he : e.run call sp s with
      | none =>
          obtain rfl : Match.nothing s = m := by simpa [Expr.run, he] using h
          exact .nothing s
      | some m' =>
          obtain rfl : m' ++ repeated (e.run call sp) sp m'.rest.length m'.rest = m := by
            simpa [Expr.run, he] using h
          simp only [Match.StandsIn, Match.nodes_append, Match.rest_append,
            Node.outermostAll_append]
          exact (ih he).append (standsIn_repeated ih sp _ _)
  | notAhead e ih =>
      cases he : e.run call sp s with
      | none =>
          obtain rfl : Match.nothing s = m := by simpa [Expr.run, he] using h
          exact .nothing s
      | some m' => simp [Expr.run, he] at h
  | atEnd =>
      obtain ⟨-, rfl⟩ : s = [] ∧ Match.nothing s = m := by simpa [Expr.run] using h
      exact .nothing s

end Matches

/-! ## Whole matches -/

section Starting

variable {g : Grammar ρ} {rules : ρ → Bool} {rank : ρ → Nat}
  (hg : (Region.empty rules).Bounds g) (hrank : g.Ranked rules rank)
include hg hrank

/-- What holds of a match if it holds of the matches of all rules that are entered for it
holds of every match.  A rule is entered at a shorter text or has a lower rank. -/
theorem start?_induction {P : ρ → List Char → Match ρ → Prop}
    (step : ∀ {call : ρ → List Char → Option (Match ρ)} {r : ρ} {s : List Char} {m : Match ρ},
      (∀ {r' s' m'}, call r' s' = some m' → P r' s' m') →
      g.start? r s = some (m.wrap (g.kind r) r) →
      (g.body r).run call (g.kind r).spacing s = some m → P r s (m.wrap (g.kind r) r))
    {r : ρ} {s : List Char} {m : Match ρ} (h : g.start? r s = some m) : P r s m := by
  induction hn : g.ranks * s.length + rank r using Nat.strongRecOn generalizing r s m with
  | ind n ih =>
      have hr := hrank r
      obtain ⟨depth, hdepth⟩ : ∃ depth, g.ranks * (s.length + 1) = depth + 1 := by
        refine Nat.exists_eq_add_one_of_ne_zero ?_
        rw [Nat.mul_add_one]
        omega
      -- the rules that are entered, and no others
      let call (r' : ρ) (s' : List Char) : Option (Match ρ) :=
        if g.ranks * s'.length + rank r' < n then g.apply depth r' s' else none
      have hcall {r' : ρ} {s' : List Char} {m' : Match ρ} (h' : call r' s' = some m') :
          P r' s' m' := by
        simp only [call] at h'
        split at h'
        · next hlt =>
            refine ih _ hlt ?_ rfl
            rw [← h']
            refine Grammar.apply_eq_apply hg hrank ?_ ?_
            · have := (hrank r').1
              rw [Nat.mul_add_one]
              omega
            · rw [Nat.mul_add_one] at hdepth
              omega
        · cases h'
      have hrun : (g.body r).run (g.apply depth) (g.kind r).spacing s
          = (g.body r).run call (g.kind r).spacing s := by
        refine Expr.run_congr hg ?_ ?_
        · intro r' hr'
          have := hr.2 r' hr'
          exact (if_pos (show g.ranks * s.length + rank r' < n by omega)).symm
        · intro r' s' hs'
          have hr' := (hrank r').1
          have hlength : g.ranks * (s'.length + 1) ≤ g.ranks * s.length := Nat.mul_le_mul_left _ hs'
          rw [Nat.mul_add_one] at hlength
          exact (if_pos (show g.ranks * s'.length + rank r' < n by omega)).symm
      have hstart := h
      rw [Grammar.start?, hdepth, Grammar.apply, hrun] at h
      obtain ⟨m', hm', rfl⟩ := Option.map_eq_some_iff.mp h
      exact step hcall hstart hm'

/-- The nodes of some rules inside a match stand in the text that it started with. -/
theorem standsIn_start? (p : ρ → Bool) {r : ρ} {s : List Char} {m : Match ρ}
    (h : g.start? r s = some m) : m.StandsIn g p s := by
  refine start?_induction hg hrank (P := fun _ s m => m.StandsIn g p s) ?_ h
  intro call r s m hcall hstart hrun
  have hsplit : m.taken ++ m.rest = s := by
    have := g.splits_start? r hstart
    rwa [Match.taken_wrap, Match.rest_wrap] at this
  rw [Match.StandsIn, Match.nodes_wrap, Match.rest_wrap, Node.outermostAll, Node.outermostAll,
    List.append_nil, Node.outermost]
  split
  · have hnode : m.wrap (g.kind r) r
        = ⟨m.taken, m.rest, [.mk r m.taken ((g.kind r).shown m.nodes)]⟩ := by
      rw [← Match.nodes_wrap]
      rfl
    rw [hnode, ← hsplit] at hstart
    rw [← hsplit]
    exact .next (x := []) hstart (.nothing m.rest)
  · cases g.kind r with
    | token => exact hsplit ▸ .done m.taken m.rest
    | phrase | compound => exact standsIn_run hcall hrun

end Starting

end PictureTree
