/-
# `Proofs.Grammar.Fixpoint` — rules without a depth

A rule is entered to a depth that suffices for the length of its text.  Any
greater depth gives the same match, so the depth can be forgotten: what a rule
matches at a text is what its expression matches there, with the rules inside it
started afresh.

    start? r  =  (run start? (body r)).map wrap     `Grammar.start?_eq`

With this equation an expression is run step by step, as if rules called each
other without a bound.
-/
import PictureTree.Proofs.Grammar.Derivation

namespace PictureTree

variable {ρ : Type}

namespace Grammar

section Depth

variable {g : Grammar ρ} {rules : ρ → Bool} {rank : ρ → Nat}
  (hg : (Region.empty rules).Bounds g) (hrank : g.Ranked rules rank)
include hg hrank

/-- Rules that are entered deep enough match as if they were started. -/
theorem run_apply_eq {depth : Nat} {sp : Spacing} {e : Expr ρ} {s : List Char}
    (hheads : ∀ r ∈ e.heads rules, g.ranks * s.length + rank r < depth)
    (hdepth : g.ranks * s.length ≤ depth) :
    e.run (g.apply depth) sp s = e.run g.start? sp s := by
  refine Expr.run_congr hg ?_ ?_
  · intro r hr
    have hr' := (hrank r).1
    have hstart := hheads r hr
    refine apply_eq_apply hg hrank hstart ?_
    rw [Nat.mul_add_one]
    omega
  · intro r s' hs'
    have hr := (hrank r).1
    have hlength : g.ranks * (s'.length + 1) ≤ g.ranks * s.length := Nat.mul_le_mul_left _ hs'
    rw [Nat.mul_add_one] at hlength
    refine apply_eq_apply hg hrank (by omega) ?_
    rw [Nat.mul_add_one]
    omega

/-- A rule matches what its expression matches. -/
theorem start?_eq (r : ρ) (s : List Char) :
    g.start? r s = ((g.body r).run g.start? (g.kind r).spacing s).map (.wrap (g.kind r) r) := by
  have hr := (hrank r).1
  obtain ⟨depth, hdepth⟩ : ∃ depth, g.ranks * (s.length + 1) = depth + 1 := by
    refine Nat.exists_eq_add_one_of_ne_zero ?_
    rw [Nat.mul_add_one]
    omega
  have hbody : (g.body r).run (g.apply depth) (g.kind r).spacing s
      = (g.body r).run g.start? (g.kind r).spacing s := by
    rw [Nat.mul_add_one] at hdepth
    refine run_apply_eq hg hrank ?_ (by omega)
    intro r' hr'
    have hlt := (hrank r).2 r' hr'
    omega
  rw [start?, hdepth, apply, hbody]

end Depth

theorem splits_start? (g : Grammar ρ) (r : ρ) : Splits (g.start? r) := by
  intro s m h
  exact g.split_apply _ r h

theorem derives_start? {g : Grammar ρ} {sp : Spacing} {r : ρ} {s : List Char} {m : Match ρ}
    (h : g.start? r s = some m) : g.Derives sp (.rule r) m.taken m.nodes :=
  derives_apply h

theorem derives_run_start? {g : Grammar ρ} {sp : Spacing} {e : Expr ρ} {s : List Char}
    {m : Match ρ} (h : e.run g.start? sp s = some m) : g.Derives sp e m.taken m.nodes :=
  Expr.derives_run derives_start? h

end Grammar

/-- An expression that leaves a region matches nothing inside it. -/
theorem Region.run_start?_eq_none {R : Region ρ} {g : Grammar ρ} (hg : R.Bounds g) {sp : Spacing}
    {e : Expr ρ} (he : R.left e = true) {s : List Char} (hs : R.holds s) :
    e.run g.start? sp s = none := by
  refine Option.eq_none_iff_forall_ne_some.mpr ?_
  intro m hm
  have hsplit : m.taken ++ m.rest = s := Expr.split_run g.splits_start? sp e hm
  have htaken : R.holds m.taken := by
    rw [← hsplit] at hs
    exact R.part (a := []) hs
  refine not_holds_taken ?_ he hm htaken
  intro r s' n hr hn
  exact not_holds_taken_apply hg _ r s' n hr hn

theorem consumes_start?_of_left {g : Grammar ρ} {rules : ρ → Bool}
    (hg : (Region.empty rules).Bounds g) {sp : Spacing} {e : Expr ρ}
    (he : (Region.empty rules).left e = true) : Consumes (e.run g.start? sp) := by
  intro s m h
  have htaken : m.taken ≠ [] := by
    refine Region.not_holds_taken ?_ he h
    intro r s' n hr hn
    exact Region.not_holds_taken_apply hg _ r s' n hr hn
  have hsplit := congrArg List.length (Expr.split_run g.splits_start? sp e h)
  have hpos := List.length_pos_iff.mpr htaken
  rw [List.length_append] at hsplit
  omega

end PictureTree
