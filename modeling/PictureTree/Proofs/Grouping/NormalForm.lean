/-
# `Proofs.Grouping.NormalForm` — what flattening comes down to

A list of groupings is in normal form if no group in it, at any depth, has
fewer than two members, and if it is not a single group:

    tidy          2 ≤ members.length        for every group of `groupsOfAll gs`
    not_single    gs ≠ [group members]

`flatten` ends in this form, keeps the members from left to right, and changes
nothing if and only if the form is there already.

Collapsing goes bottom-up: a group is looked at after its members have been
collapsed, so it may become empty or single on the way.  Hence every fact below
is proved by `forest_induction`, which offers the members of a first group and
the groupings behind it at the same time, and needs no measure.
-/
import PictureTree.Grouping

namespace PictureTree

namespace Grouping

variable {β : Type}

/-- Induction on a list of groupings: the first one is a member, or a group
whose own list is smaller. -/
@[elab_as_elim]
theorem forest_induction {motive : List (Grouping β) → Prop} (nil : motive [])
    (one : ∀ b gs, motive gs → motive (.one b :: gs))
    (group : ∀ ms gs, motive ms → motive gs → motive (.group ms :: gs)) :
    ∀ gs, motive gs
  | [] => nil
  | .one b :: gs => one b gs (forest_induction nil one group gs)
  | .group ms :: gs =>
      group ms gs (forest_induction nil one group ms) (forest_induction nil one group gs)

/-! ## The functions of a list, by its first grouping -/

@[simp] theorem leavesOfAll_cons_one (b : β) (gs : List (Grouping β)) :
    leavesOfAll (one b :: gs) = b :: leavesOfAll gs := rfl

@[simp] theorem leavesOfAll_cons_group (ms gs : List (Grouping β)) :
    leavesOfAll (group ms :: gs) = leavesOfAll ms ++ leavesOfAll gs := rfl

@[simp] theorem leavesOfAll_append (gs hs : List (Grouping β)) :
    leavesOfAll (gs ++ hs) = leavesOfAll gs ++ leavesOfAll hs := by
  simp only [leavesOfAll_eq_flatMap, List.flatMap_append]

@[simp] theorem collapseAll_cons_one (b : β) (gs : List (Grouping β)) :
    collapseAll (one b :: gs) = one b :: collapseAll gs := rfl

@[simp] theorem collapseAll_cons_group (ms gs : List (Grouping β)) :
    collapseAll (group ms :: gs) = (bundle? (collapseAll ms)).toList ++ collapseAll gs := rfl

@[simp] theorem collapseAll_append (gs hs : List (Grouping β)) :
    collapseAll (gs ++ hs) = collapseAll gs ++ collapseAll hs := by
  simp only [collapseAll_eq_filterMap, List.filterMap_append]

/-! ## The groups at every depth -/

mutual

/-- The members of every group in a grouping, the outermost first. -/
def groups : Grouping β → List (List (Grouping β))
  | one _ => []
  | group gs => gs :: groupsOfAll gs

/-- The members of every group in a list of groupings. -/
def groupsOfAll : List (Grouping β) → List (List (Grouping β))
  | [] => []
  | g :: gs => groups g ++ groupsOfAll gs

end

@[simp] theorem groupsOfAll_nil : groupsOfAll ([] : List (Grouping β)) = [] := rfl

@[simp] theorem groupsOfAll_cons_one (b : β) (gs : List (Grouping β)) :
    groupsOfAll (one b :: gs) = groupsOfAll gs := rfl

@[simp] theorem groupsOfAll_cons_group (ms gs : List (Grouping β)) :
    groupsOfAll (group ms :: gs) = ms :: (groupsOfAll ms ++ groupsOfAll gs) := rfl

@[simp] theorem groupsOfAll_append (gs hs : List (Grouping β)) :
    groupsOfAll (gs ++ hs) = groupsOfAll gs ++ groupsOfAll hs := by
  induction gs with
  | nil => rfl
  | cons g gs ih => simp only [List.cons_append, groupsOfAll, ih, List.append_assoc]

/-! ## Tidy lists -/

/-- No group at any depth has fewer than two members. -/
def Tidy (gs : List (Grouping β)) : Prop := ∀ members ∈ groupsOfAll gs, 2 ≤ members.length

instance (gs : List (Grouping β)) : Decidable (Tidy gs) :=
  inferInstanceAs (Decidable (∀ members ∈ groupsOfAll gs, 2 ≤ members.length))

@[simp] theorem tidy_nil : Tidy ([] : List (Grouping β)) :=
  fun _ h => absurd h List.not_mem_nil

@[simp] theorem tidy_cons_one {b : β} {gs : List (Grouping β)} :
    Tidy (one b :: gs) ↔ Tidy gs := Iff.rfl

@[simp] theorem tidy_cons_group {ms gs : List (Grouping β)} :
    Tidy (group ms :: gs) ↔ 2 ≤ ms.length ∧ Tidy ms ∧ Tidy gs := by
  simp only [Tidy, groupsOfAll_cons_group, List.forall_mem_cons, List.forall_mem_append]

@[simp] theorem tidy_append {gs hs : List (Grouping β)} :
    Tidy (gs ++ hs) ↔ Tidy gs ∧ Tidy hs := by
  simp only [Tidy, groupsOfAll_append, List.forall_mem_append]

/-! ## Bundling

`bundle?` is the only step that drops a group, so what it keeps is what
collapsing keeps. -/

theorem bundle?_of_two_le {gs : List (Grouping β)} (h : 2 ≤ gs.length) :
    bundle? gs = some (group gs) := by
  match gs, h with
  | _ :: _ :: _, _ => rfl

@[simp] theorem leavesOfAll_bundle (gs : List (Grouping β)) :
    leavesOfAll (bundle? gs).toList = leavesOfAll gs := by
  match gs with
  | [] => rfl
  | [g] => rfl
  | g :: h :: rest => simp [bundle?, leavesOfAll]

theorem tidy_bundle {gs : List (Grouping β)} (h : Tidy gs) : Tidy (bundle? gs).toList := by
  match gs with
  | [] => exact tidy_nil
  | [g] => exact h
  | g :: k :: rest =>
      show Tidy [group (g :: k :: rest)]
      exact tidy_cons_group.mpr ⟨by simp, h, tidy_nil⟩

/-! ## Collapsing -/

theorem leavesOfAll_collapseAll (gs : List (Grouping β)) :
    leavesOfAll (collapseAll gs) = leavesOfAll gs := by
  induction gs using forest_induction with
  | nil => rfl
  | one b gs ih => rw [collapseAll_cons_one, leavesOfAll_cons_one, leavesOfAll_cons_one, ih]
  | group ms gs ihm ih =>
      rw [collapseAll_cons_group, leavesOfAll_append, leavesOfAll_bundle, ihm, ih,
        leavesOfAll_cons_group]

theorem tidy_collapseAll (gs : List (Grouping β)) : Tidy (collapseAll gs) := by
  induction gs using forest_induction with
  | nil => exact tidy_nil
  | one b gs ih => exact tidy_cons_one.mpr ih
  | group ms gs ihm ih =>
      rw [collapseAll_cons_group]
      exact tidy_append.mpr ⟨tidy_bundle ihm, ih⟩

theorem collapseAll_of_tidy {gs : List (Grouping β)} (h : Tidy gs) : collapseAll gs = gs := by
  induction gs using forest_induction with
  | nil => rfl
  | one b gs ih => rw [collapseAll_cons_one, ih (tidy_cons_one.mp h)]
  | group ms gs ihm ih =>
      obtain ⟨hlen, hms, hgs⟩ := tidy_cons_group.mp h
      rw [collapseAll_cons_group, ihm hms, ih hgs, bundle?_of_two_le hlen]
      rfl

/-! ## The normal form -/

/-- A tidy list that is not a single group. -/
structure IsNormal (gs : List (Grouping β)) : Prop where
  tidy : Tidy gs
  not_single : ∀ members, gs ≠ [group members]

/-- Whether a list is a single group. -/
def isSingleGroup : List (Grouping β) → Bool
  | [group _] => true
  | _ => false

theorem isSingleGroup_eq_false_iff {gs : List (Grouping β)} :
    isSingleGroup gs = false ↔ ∀ members, gs ≠ [group members] := by
  match gs with
  | [] => simp [isSingleGroup]
  | [one b] => simp [isSingleGroup]
  | [group ms] => simp [isSingleGroup]
  | g :: h :: rest => simp [isSingleGroup]

instance (gs : List (Grouping β)) : Decidable (IsNormal gs) :=
  decidable_of_iff (Tidy gs ∧ isSingleGroup gs = false)
    ⟨fun h => ⟨h.1, isSingleGroup_eq_false_iff.mp h.2⟩,
      fun h => ⟨h.tidy, isSingleGroup_eq_false_iff.mpr h.not_single⟩⟩

/-- What is unwrapped is the list itself, unless that is a single group. -/
theorem unwrapTop_cases (gs : List (Grouping β)) :
    (∃ ms, gs = [group ms] ∧ unwrapTop gs = ms) ∨
      (∀ members, gs ≠ [group members]) ∧ unwrapTop gs = gs := by
  unfold unwrapTop
  split
  · exact .inl ⟨_, rfl, rfl⟩
  · next hne => exact .inr ⟨hne, rfl⟩

theorem leavesOfAll_unwrapTop (gs : List (Grouping β)) :
    leavesOfAll (unwrapTop gs) = leavesOfAll gs := by
  rcases unwrapTop_cases gs with ⟨ms, rfl, -⟩ | ⟨-, h⟩
  · exact (List.append_nil _).symm
  · rw [h]

/-- A single unwrapping is enough: the members of a tidy group are two at
least, so they are no single group again. -/
theorem isNormal_unwrapTop {gs : List (Grouping β)} (h : Tidy gs) : IsNormal (unwrapTop gs) := by
  rcases unwrapTop_cases gs with ⟨ms, rfl, hms⟩ | ⟨hne, hgs⟩
  · obtain ⟨hlen, htidy, -⟩ := tidy_cons_group.mp h
    rw [hms]
    refine ⟨htidy, fun members hsingle => ?_⟩
    have hone : ms.length = 1 := congrArg List.length hsingle
    omega
  · rw [hgs]
    exact ⟨h, hne⟩

theorem unwrapTop_of_not_single {gs : List (Grouping β)} (h : ∀ members, gs ≠ [group members]) :
    unwrapTop gs = gs := by
  rcases unwrapTop_cases gs with ⟨ms, hgs, -⟩ | ⟨-, hgs⟩
  · exact absurd hgs (h ms)
  · exact hgs

theorem leavesOfAll_flatten (gs : List (Grouping β)) :
    leavesOfAll (flatten gs) = leavesOfAll gs :=
  (leavesOfAll_unwrapTop _).trans (leavesOfAll_collapseAll gs)

theorem isNormal_flatten (gs : List (Grouping β)) : IsNormal (flatten gs) :=
  isNormal_unwrapTop (tidy_collapseAll gs)

theorem flatten_of_isNormal {gs : List (Grouping β)} (h : IsNormal gs) : flatten gs = gs := by
  rw [flatten, collapseAll_of_tidy h.tidy, unwrapTop_of_not_single h.not_single]

/-- Flattening keeps the members and ends in normal form; the lists that it
keeps as they are are those in normal form, so once is as good as twice. -/
theorem flatten_reaches_normal_form (gs : List (Grouping β)) :
    leavesOfAll (flatten gs) = leavesOfAll gs ∧ IsNormal (flatten gs) ∧
      (flatten gs = gs ↔ IsNormal gs) ∧ flatten (flatten gs) = flatten gs := by
  refine ⟨leavesOfAll_flatten gs, isNormal_flatten gs, ⟨fun h => ?_, flatten_of_isNormal⟩,
    flatten_of_isNormal (isNormal_flatten gs)⟩
  exact h ▸ isNormal_flatten gs

/-- The outer group is single only after the empty one has gone. -/
example : flatten [group [group [], group [group [one 1], one 2]]] = [one 1, one 2] := rfl

end Grouping

end PictureTree
