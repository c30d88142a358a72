/-
# `Proofs.Context.Parameters` — what a list of parameters means

Parameters are set one after the other, and each of them is read in the context
that those before it have left.  But what a parameter is read as depends on the
common unit of that context alone: not on the units of the axes, nor on any style.
So a list that leaves the unit alone is read as a whole in the context that it
starts from, and what counts of it are the last settings of their keys that take
effect:

    fails                          changes nothing
    an opacity out of range        changes nothing
    takes effect again later       is replaced

`Context.independent` gathers the laws of the style families, and
`setAll_means_last_effective` says what follows for the list.
-/
import PictureTree.Context
import PictureTree.Proofs.Style.Independence
import PictureTree.Proofs.Style.Reading
import PictureTree.Scalar.Double

open scoped PictureTree.Scalar

namespace PictureTree

variable {α : Type} [Scalar α]

/-! ## Settings of different keys -/

namespace Setting

/-- The families, by the place at which `read` asks them. -/
def family : Setting α → Nat
  | .scale _ => 0
  | .stroke _ => 1
  | .filling _ => 2
  | .double _ => 3
  | .shadow _ => 4
  | .arrows _ => 5
  | .dots _ => 6
  | .grid _ => 7
  | .axes _ => 8
  | .plotting _ => 9
  | .frameArc _ | .showPoints _ | .shapeAngle _ => 10

/-- The first family with a reader for a key. -/
def familyOf (r : Reading α) (key : String) : Nat :=
  let p : Param := ⟨key, ""⟩
  [(Units.Setting.read? (α := α) p).isSome, (Stroke.Setting.read? r p).isSome,
    (Filling.Setting.read? r p).isSome, (DoubleLine.Setting.read? r p).isSome,
    (Shadow.Setting.read? r p).isSome, (Arrows.Setting.read? r p).isSome,
    (Dots.Setting.read? r p).isSome, (GridStyle.Setting.read? r p).isSome,
    (AxesStyle.Setting.read? r p).isSome, (Plotting.Setting.read? p).isSome].idxOf true

theorem familyOf_key (r : Reading α) (s : Setting α) : familyOf r s.key = s.family := by
  cases s with
  | scale s | stroke s | filling s | double s | shadow s | arrows s | dots s | grid s | axes s
  | plotting s => cases s <;> rfl
  | frameArc | showPoints | shapeAngle => rfl

theorem family_eq {s t : Setting α} (h : s.key = t.key) : s.family = t.family := by
  let r : Reading α := ⟨.ofPpc 1, ⟨[]⟩⟩
  rw [← familyOf_key r s, h, familyOf_key]

/-- Everything counts, opacities out of range aside. -/
def inRange : Setting α → Bool
  | .stroke s => s.inRange
  | .filling s => s.inRange
  | _ => true

end Setting

namespace Context

theorem put_comm (c : Context α) {s t : Setting α} (h : s.key ≠ t.key) :
    (c.put s).put t = (c.put t).put s := by
  cases s <;> cases t
  case scale.scale s t =>
    exact congrArg (fun x => { c with units := x }) (Units.independent.comm _ s t h)
  case stroke.stroke s t =>
    exact congrArg (fun x => { c with stroke := x }) (Stroke.independent.comm _ s t h)
  case filling.filling s t =>
    exact congrArg (fun x => { c with filling := x }) (Filling.independent.comm _ s t h)
  case double.double s t =>
    exact congrArg (fun x => { c with double := x }) (DoubleLine.independent.comm _ s t h)
  case shadow.shadow s t =>
    exact congrArg (fun x => { c with shadow := x }) (Shadow.independent.comm _ s t h)
  case arrows.arrows s t =>
    exact congrArg (fun x => { c with arrows := x }) (Arrows.independent.comm _ s t h)
  case dots.dots s t =>
    exact congrArg (fun x => { c with dots := x }) (Dots.independent.comm _ s t h)
  case grid.grid s t =>
    exact congrArg (fun x => { c with grid := x }) (GridStyle.independent.comm _ s t h)
  case axes.axes s t =>
    exact congrArg (fun x => { c with axes := x }) (AxesStyle.independent.comm _ s t h)
  case plotting.plotting s t =>
    exact congrArg (fun x => { c with plotting := x }) (Plotting.independent.comm _ s t h)
  case frameArc.frameArc | showPoints.showPoints | shapeAngle.shapeAngle => exact absurd rfl h
  -- the others change different parts of the context
  all_goals rfl

theorem put_last (c : Context α) {s t : Setting α} (h : s.key = t.key) (ht : t.inRange = true) :
    (c.put s).put t = c.put t := by
  cases s <;> cases t
  case scale.scale s t =>
    exact congrArg (fun x => { c with units := x }) (Units.independent.last _ s t h rfl)
  case stroke.stroke s t =>
    exact congrArg (fun x => { c with stroke := x }) (Stroke.independent.last _ s t h ht)
  case filling.filling s t =>
    exact congrArg (fun x => { c with filling := x }) (Filling.independent.last _ s t h ht)
  case double.double s t =>
    exact congrArg (fun x => { c with double := x }) (DoubleLine.independent.last _ s t h rfl)
  case shadow.shadow s t =>
    exact congrArg (fun x => { c with shadow := x }) (Shadow.independent.last _ s t h rfl)
  case arrows.arrows s t =>
    exact congrArg (fun x => { c with arrows := x }) (Arrows.independent.last _ s t h rfl)
  case dots.dots s t =>
    exact congrArg (fun x => { c with dots := x }) (Dots.independent.last _ s t h rfl)
  case grid.grid s t =>
    exact congrArg (fun x => { c with grid := x }) (GridStyle.independent.last _ s t h rfl)
  case axes.axes s t =>
    exact congrArg (fun x => { c with axes := x }) (AxesStyle.independent.last _ s t h rfl)
  case plotting.plotting s t =>
    exact congrArg (fun x => { c with plotting := x }) (Plotting.independent.last _ s t h rfl)
  case frameArc.frameArc | showPoints.showPoints | shapeAngle.shapeAngle => rfl
  case frameArc.showPoints | frameArc.shapeAngle | showPoints.frameArc | showPoints.shapeAngle
    | shapeAngle.frameArc | shapeAngle.showPoints => simp [Setting.key] at h
  -- the others are of different families, and so are their keys
  all_goals nomatch Setting.family_eq h

theorem put_idle (c : Context α) {s : Setting α} (h : s.inRange = false) : c.put s = c := by
  cases s with
  | stroke s => exact congrArg (fun x => { c with stroke := x }) (Stroke.independent.idle _ s h)
  | filling s => exact congrArg (fun x => { c with filling := x }) (Filling.independent.idle _ s h)
  | _ => cases h

theorem independent : Independent Setting.key (put (α := α)) Setting.inRange where
  comm c _ _ h := c.put_comm h
  last c _ _ h ht := c.put_last h ht
  idle c _ h := c.put_idle h

end Context

/-! ## Parameters that are read in one place -/

namespace Reading

variable (r : Reading α)

/-- The context with a parameter set that is read here, or as it was if that fails. -/
def put (c : Context α) (p : Param) : Context α :=
  match Setting.read r p with
  | .ok s => c.put s
  | .error _ => c

/-- A parameter takes effect if it can be read and is no opacity out of range. -/
def takesEffect (p : Param) : Bool :=
  match Setting.read r p with
  | .ok s => s.inRange
  | .error _ => false

/-- Why a parameter fails, if it does. -/
def error? (p : Param) : Option ResolveError :=
  match Setting.read r p with
  | .ok _ => none
  | .error e => some e

theorem put_of_not_takesEffect {p : Param} (h : r.takesEffect p = false) (c : Context α) :
    r.put c p = c := by
  unfold put takesEffect at *
  cases hp : Setting.read r p with
  | error e => rfl
  | ok s =>
      simp only [hp] at h
      exact Context.independent.idle c s h

theorem independent : Independent Param.key r.put r.takesEffect where
  comm c p q h := by
    unfold put
    cases hp : Setting.read r p with
    | error e => rfl
    | ok s =>
        cases hq : Setting.read r q with
        | error e => rfl
        | ok t =>
            refine Context.independent.comm c s t ?_
            rwa [Setting.key_of_read hp, Setting.key_of_read hq]
  last c p q h hq := by
    unfold takesEffect at hq
    cases hread : Setting.read r q with
    | error e => simp [hread] at hq
    | ok t =>
        simp only [hread] at hq
        cases hp : Setting.read r p with
        | error e => simp only [put, hp]
        | ok s =>
            simp only [put, hp, hread]
            refine Context.independent.last c s t ?_ hq
            rw [Setting.key_of_read hp, Setting.key_of_read hread, h]
  idle c p h := r.put_of_not_takesEffect h c

end Reading

/-! ## Where a parameter is read -/

/-- The same common unit, and as many pixels to a centimetre. -/
structure Units.SameUnit (u v : Units α) : Prop where
  ppc : v.ppc = u.ppc
  unit : v.unit = u.unit

omit [Scalar α] in
/-- No setting of another key changes the common unit. -/
theorem Units.sameUnit_put (u : Units α) {s : Units.Setting α} (h : s.key ≠ "unit") :
    u.SameUnit (u.put s) := by
  cases s with
  | unit => exact absurd rfl h
  | xUnit | yUnit => exact ⟨rfl, rfl⟩

/-- What a parameter is read as depends on the common unit only. -/
theorem Setting.read_of_sameUnit {u v : Units α} (h : u.SameUnit v) (palette : Palette α)
    (p : Param) : Setting.read ⟨v, palette⟩ p = Setting.read ⟨u, palette⟩ p := by
  obtain ⟨ppc, unit, x, y⟩ := u
  obtain ⟨_, _, x', y'⟩ := v
  obtain ⟨rfl, rfl⟩ := h
  rfl

namespace Context

variable {u : Units α} {palette : Palette α}

theorem sameUnit_put {c : Context α} (hc : u.SameUnit c.units) {s : Setting α}
    (h : s.key ≠ "unit") : u.SameUnit (c.put s).units := by
  cases s with
  | scale s =>
      have hs := c.units.sameUnit_put h
      exact ⟨hs.ppc.trans hc.ppc, hs.unit.trans hc.unit⟩
  | _ => exact hc

/-- With the unit as it was, a parameter may be read where the list starts. -/
theorem trySet_eq_put {c : Context α} (hc : u.SameUnit c.units) (p : Param) :
    c.trySet palette p = Reading.put ⟨u, palette⟩ c p := by
  rw [trySet, set, Reading.put, Setting.read_of_sameUnit hc]
  cases Setting.read ⟨u, palette⟩ p <;> rfl

theorem sameUnit_trySet {c : Context α} (hc : u.SameUnit c.units) {p : Param}
    (hp : p.key ≠ "unit") : u.SameUnit (c.trySet palette p).units := by
  rw [trySet_eq_put hc, Reading.put]
  cases hread : Setting.read ⟨u, palette⟩ p with
  | error e => exact hc
  | ok s => exact sameUnit_put hc (by rwa [Setting.key_of_read hread])

/-- Setting parameters is putting what they are read as where the list starts. -/
theorem setAll_eq_foldl {c : Context α} (hc : u.SameUnit c.units) {ps : List Param}
    (hps : ∀ p ∈ ps, p.key ≠ "unit") :
    c.setAll palette ps = ps.foldl (Reading.put ⟨u, palette⟩) c := by
  induction ps generalizing c with
  | nil => rfl
  | cons p ps ih =>
      obtain ⟨hp, hps⟩ := List.forall_mem_cons.mp hps
      rw [List.foldl_cons, ← trySet_eq_put hc]
      exact ih (sameUnit_trySet hc hp) hps

/-- The errors of a list are those of its parameters where the list starts. -/
theorem errors_eq_filterMap {c : Context α} (hc : u.SameUnit c.units) {ps : List Param}
    (hps : ∀ p ∈ ps, p.key ≠ "unit") :
    c.errors palette ps = ps.filterMap (Reading.error? ⟨u, palette⟩) := by
  induction ps generalizing c with
  | nil => rfl
  | cons p ps ih =>
      obtain ⟨hp, hps⟩ := List.forall_mem_cons.mp hps
      rw [errors, set, Setting.read_of_sameUnit hc, List.filterMap_cons, Reading.error?]
      cases hread : Setting.read ⟨u, palette⟩ p with
      | error e => exact congrArg (e :: ·) (ih hc hps)
      | ok s => exact ih (sameUnit_put hc (by rwa [Setting.key_of_read hread])) hps

/-! ## The last effective settings -/

/-- Each parameter of a list with the context that it is set in. -/
def turns (c : Context α) (palette : Palette α) : List Param → List (Param × Context α)
  | [] => []
  | p :: ps => (p, c) :: turns (c.trySet palette p) palette ps

/-- A list without the parameters that take no effect in their turn, and without
those whose key takes effect again later. -/
def lastEffective (c : Context α) (palette : Palette α) (ps : List Param) : List Param :=
  (lastWorking (fun turn => turn.1.key)
    (fun turn => Reading.takesEffect ⟨turn.2.units, palette⟩ turn.1) (c.turns palette ps)).map
    Prod.fst

theorem map_fst_turns (c : Context α) (palette : Palette α) (ps : List Param) :
    (c.turns palette ps).map Prod.fst = ps := by
  induction ps generalizing c with
  | nil => rfl
  | cons p ps ih => exact congrArg (p :: ·) (ih _)

theorem sameUnit_of_mem_turns {c : Context α} (hc : u.SameUnit c.units) {ps : List Param}
    (hps : ∀ p ∈ ps, p.key ≠ "unit") {turn : Param × Context α}
    (h : turn ∈ c.turns palette ps) : u.SameUnit turn.2.units := by
  induction ps generalizing c with
  | nil => cases h
  | cons p ps ih =>
      obtain ⟨hp, hps⟩ := List.forall_mem_cons.mp hps
      rcases List.mem_cons.mp h with rfl | h
      · exact hc
      · exact ih (sameUnit_trySet hc hp) hps h

theorem lastEffective_eq {c : Context α} (hc : u.SameUnit c.units) {ps : List Param}
    (hps : ∀ p ∈ ps, p.key ≠ "unit") :
    c.lastEffective palette ps
      = lastWorking Param.key (Reading.takesEffect ⟨u, palette⟩) ps := by
  rw [lastEffective, map_lastWorking Param.key (fun _ => rfl), map_fst_turns]
  intro turn hturn
  rw [Reading.takesEffect, Reading.takesEffect,
    Setting.read_of_sameUnit (sameUnit_of_mem_turns hc hps hturn)]

/-- Of a list of parameters that leaves the unit alone, only the last effective
setting of each key counts; and in which order the keys come is of no account, for
the context or for the errors. -/
theorem setAll_means_last_effective (c : Context α) (palette : Palette α) (ps : List Param)
    (hunit : ∀ p ∈ ps, p.key ≠ "unit") :
    c.setAll palette (c.lastEffective palette ps) = c.setAll palette ps ∧
      ∀ qs, SameByKey Param.key ps qs →
        c.setAll palette qs = c.setAll palette ps ∧
          (c.errors palette qs).Perm (c.errors palette ps) := by
  have hc : c.units.SameUnit c.units := ⟨rfl, rfl⟩
  have hlaws := Reading.independent ⟨c.units, palette⟩
  refine ⟨?_, fun qs hsame => ?_⟩
  · have hlast : ∀ p ∈ lastWorking Param.key (Reading.takesEffect ⟨c.units, palette⟩) ps,
        p.key ≠ "unit" := fun p hp => hunit p (mem_of_mem_lastWorking hp)
    rw [lastEffective_eq hc hunit, setAll_eq_foldl hc hlast, setAll_eq_foldl hc hunit,
      hlaws.foldl_lastWorking]
  · have hqs : ∀ p ∈ qs, p.key ≠ "unit" := fun p hp => hunit p (hsame.perm.mem_iff.mpr hp)
    constructor
    · rw [setAll_eq_foldl hc hqs, setAll_eq_foldl hc hunit, hlaws.foldl_of_sameByKey hsame]
    · rw [errors_eq_filterMap hc hqs, errors_eq_filterMap hc hunit]
      exact hsame.perm.symm.filterMap _

/-- A list with all the ways to take no effect: a width that is replaced, an opacity
out of range, a width that cannot be used and a key that nobody knows.  The unit of
an axis that stands before a length is of no account for it. -/
theorem setAll_means_last_effective_mixed :
    let ps : List Param :=
      [⟨"linewidth", "1"⟩, ⟨"xunit", "2"⟩, ⟨"opacity", "0.5"⟩, ⟨"linewidth", "0.2"⟩,
        ⟨"opacity", "1.5"⟩, ⟨"linewidth", "-1"⟩, ⟨"framearc", "0.25"⟩, ⟨"linecolour", "red"⟩]
    let effective : List Param :=
      [⟨"xunit", "2"⟩, ⟨"opacity", "0.5"⟩, ⟨"linewidth", "0.2"⟩, ⟨"framearc", "0.25"⟩]
    let swapped : List Param :=
      [⟨"xunit", "2"⟩, ⟨"linewidth", "1"⟩, ⟨"opacity", "0.5"⟩, ⟨"linewidth", "0.2"⟩,
        ⟨"opacity", "1.5"⟩, ⟨"linewidth", "-1"⟩, ⟨"framearc", "0.25"⟩, ⟨"linecolour", "red"⟩]
    let c : Context Float := .initial 50
    (∀ p ∈ ps, p.key ≠ "unit") ∧ c.lastEffective ⟨[]⟩ ps = effective ∧
      c.setAll ⟨[]⟩ effective = c.setAll ⟨[]⟩ ps ∧ SameByKey Param.key ps swapped ∧
      c.setAll ⟨[]⟩ swapped = c.setAll ⟨[]⟩ ps ∧
      (c.errors ⟨[]⟩ swapped).Perm (c.errors ⟨[]⟩ ps) := by
  intro ps effective swapped c
  have hunit : ∀ p ∈ ps, p.key ≠ "unit" := by decide
  have heffective : c.lastEffective ⟨[]⟩ ps = effective := by decide +kernel
  have hsame : SameByKey Param.key ps swapped := by
    intro k
    by_cases hwidth : "linewidth" = k
    · subst hwidth
      decide
    · by_cases hx : "xunit" = k <;> simp [ps, swapped, hwidth, hx]
  obtain ⟨hdeleted, hpermuted⟩ := setAll_means_last_effective c ⟨[]⟩ ps hunit
  obtain ⟨hcontext, herrors⟩ := hpermuted swapped hsame
  exact ⟨hunit, heffective, heffective ▸ hdeleted, hsame, hcontext, herrors⟩

end Context

end PictureTree
