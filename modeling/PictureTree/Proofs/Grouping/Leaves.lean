/-
# `Proofs.Grouping.Leaves` — what holds of all members of a list

`AllLeaves P gs` says `P` of every member of `gs`, at every depth.  It is said of
a list of groupings and goes by its first one:

    one b     P b
    group ms  AllLeaves P ms

Collapsing drops groups and no members, so it is seen neither by `AllLeaves` nor
by a map over the members: `collapseAll_mapAll` and `allLeaves_collapseAll`.  Two
lists that collapse to the same one have the same members, and stay two such
lists when they are reversed, mapped, or put into a group.

`DifferAt k b c gs hs` says that two lists are grouped alike and have the same
members but for one, which is `b` in the one and `c` in the other, with `k` members
on its left.
-/
import PictureTree.Proofs.Grouping.TrivialGroups

namespace PictureTree

namespace Grouping

variable {β γ : Type}

/-! ## All members -/

/-- Every member at every depth of some groupings has a property. -/
def AllLeaves (P : β → Prop) (gs : List (Grouping β)) : Prop := ∀ b ∈ leavesOfAll gs, P b

section AllLeaves

variable {P : β → Prop} {gs hs ms : List (Grouping β)}

@[simp] theorem allLeaves_nil : AllLeaves P [] := fun _ h => absurd h List.not_mem_nil

@[simp] theorem allLeaves_cons_one {b : β} :
    AllLeaves P (.one b :: gs) ↔ P b ∧ AllLeaves P gs := List.forall_mem_cons

@[simp] theorem allLeaves_cons_group :
    AllLeaves P (.group ms :: gs) ↔ AllLeaves P ms ∧ AllLeaves P gs := List.forall_mem_append

@[simp] theorem allLeaves_append :
    AllLeaves P (gs ++ hs) ↔ AllLeaves P gs ∧ AllLeaves P hs := by
  simp only [AllLeaves, leavesOfAll_append]
  exact List.forall_mem_append

theorem allLeaves_cons {g : Grouping β} :
    AllLeaves P (g :: gs) ↔ AllLeaves P [g] ∧ AllLeaves P gs := by
  rw [← allLeaves_append]
  rfl

@[simp] theorem allLeaves_reverse : AllLeaves P gs.reverse ↔ AllLeaves P gs := by
  simp [AllLeaves, leavesOfAll_eq_flatMap]

@[simp] theorem allLeaves_map_one {bs : List β} :
    AllLeaves P (bs.map .one) ↔ ∀ b ∈ bs, P b := by
  induction bs with
  | nil => simp
  | cons b bs ih => simp [ih]

@[simp] theorem allLeaves_collapseAll : AllLeaves P (collapseAll gs) ↔ AllLeaves P gs := by
  rw [AllLeaves, leavesOfAll_collapseAll]
  rfl

theorem allLeaves_flatten : AllLeaves P (flatten gs) ↔ AllLeaves P gs := by
  rw [AllLeaves, leavesOfAll_flatten]
  rfl

end AllLeaves

/-! ## Maps of the members -/

theorem leavesOfAll_mapAll (f : β → γ) (gs : List (Grouping β)) :
    leavesOfAll (mapAll f gs) = (leavesOfAll gs).map f := by
  induction gs using forest_induction with
  | nil => rfl
  | one b gs ih => exact congrArg (f b :: ·) ih
  | group ms gs ihm ih =>
      have hmap : mapAll f (.group ms :: gs) = .group (mapAll f ms) :: mapAll f gs := rfl
      rw [hmap, leavesOfAll_cons_group, leavesOfAll_cons_group, ihm, ih, List.map_append]

theorem leaves_map (f : β → γ) (g : Grouping β) : (g.map f).leaves = g.leaves.map f := by
  cases g with
  | one b => rfl
  | group gs => exact leavesOfAll_mapAll f gs

theorem mapAll_mapAll {δ : Type} (f : β → γ) (g : γ → δ) (gs : List (Grouping β)) :
    mapAll g (mapAll f gs) = mapAll (fun b => g (f b)) gs := by
  induction gs using forest_induction with
  | nil => rfl
  | one b gs ih => exact congrArg (.one (g (f b)) :: ·) ih
  | group ms gs ihm ih =>
      have hmap : mapAll g (mapAll f (.group ms :: gs))
          = .group (mapAll g (mapAll f ms)) :: mapAll g (mapAll f gs) := rfl
      rw [hmap, ihm, ih]
      rfl

theorem map_map {δ : Type} (f : β → γ) (g : γ → δ) (s : Grouping β) :
    (s.map f).map g = s.map fun b => g (f b) := by
  cases s with
  | one b => rfl
  | group gs => exact congrArg group (mapAll_mapAll f g gs)

theorem mapAll_id (gs : List (Grouping β)) : mapAll (fun b => b) gs = gs := by
  induction gs using forest_induction with
  | nil => rfl
  | one b gs ih => exact congrArg (one b :: ·) ih
  | group ms gs ihm ih =>
      show group (mapAll _ ms) :: mapAll _ gs = _
      rw [ihm, ih]

@[simp] theorem leavesOfAll_map_one (bs : List β) : leavesOfAll (bs.map one) = bs := by
  induction bs with
  | nil => rfl
  | cons b bs ih => exact congrArg (b :: ·) ih

theorem mapAll_congr {f g : β → γ} {gs : List (Grouping β)} (h : ∀ b ∈ leavesOfAll gs, f b = g b) :
    mapAll f gs = mapAll g gs := by
  induction gs using forest_induction with
  | nil => rfl
  | one b gs ih =>
      obtain ⟨hb, hgs⟩ := List.forall_mem_cons.mp h
      show one (f b) :: mapAll f gs = one (g b) :: mapAll g gs
      rw [hb, ih hgs]
  | group ms gs ihm ih =>
      obtain ⟨hms, hgs⟩ := List.forall_mem_append.mp h
      show group (mapAll f ms) :: mapAll f gs = group (mapAll g ms) :: mapAll g gs
      rw [ihm hms, ih hgs]

/-- Maps that agree on the members agree on the grouping. -/
theorem map_congr {f g : β → γ} {s : Grouping β} (h : ∀ b ∈ s.leaves, f b = g b) :
    s.map f = s.map g := by
  cases s with
  | one b => exact congrArg one (h b (List.mem_singleton_self b))
  | group gs => exact congrArg group (mapAll_congr h)

/-! ## Collapsing and the members -/

theorem collapseAll_reverse (gs : List (Grouping β)) :
    collapseAll gs.reverse = (collapseAll gs).reverse := by
  rw [collapseAll_eq_filterMap, collapseAll_eq_filterMap, List.filterMap_reverse]

theorem mapAll_append (f : β → γ) (gs hs : List (Grouping β)) :
    mapAll f (gs ++ hs) = mapAll f gs ++ mapAll f hs := by
  simp only [mapAll_eq_map, List.map_append]

theorem mapAll_bundle (f : β → γ) (gs : List (Grouping β)) :
    mapAll f (bundle? gs).toList = (bundle? (mapAll f gs)).toList := by
  match gs with
  | [] => rfl
  | [g] => rfl
  | g :: h :: rest => rfl

/-- Groups vanish and unwrap whatever their members are. -/
theorem collapseAll_mapAll (f : β → γ) (gs : List (Grouping β)) :
    collapseAll (mapAll f gs) = mapAll f (collapseAll gs) := by
  induction gs using forest_induction with
  | nil => rfl
  | one b gs ih => exact congrArg (.one (f b) :: ·) ih
  | group ms gs ihm ih =>
      have hmap : mapAll f (.group ms :: gs) = .group (mapAll f ms) :: mapAll f gs := rfl
      rw [hmap, collapseAll_cons_group, collapseAll_cons_group, ihm, ih, mapAll_append,
        mapAll_bundle]

theorem unwrapTop_mapAll (f : β → γ) (gs : List (Grouping β)) :
    unwrapTop (mapAll f gs) = mapAll f (unwrapTop gs) := by
  match gs with
  | [] => rfl
  | [.one _] => rfl
  | [.group _] => rfl
  | .one _ :: _ :: _ => rfl
  | .group _ :: _ :: _ => rfl

/-- Flattening looks at groups and not at what is in them. -/
theorem flatten_mapAll (f : β → γ) (gs : List (Grouping β)) :
    flatten (mapAll f gs) = mapAll f (flatten gs) := by
  rw [flatten, collapseAll_mapAll, unwrapTop_mapAll, flatten]

/-! ## Lists that collapse to the same one -/

section Collapsed

variable {gs hs : List (Grouping β)}

theorem allLeaves_congr (h : collapseAll gs = collapseAll hs) {P : β → Prop} :
    AllLeaves P gs ↔ AllLeaves P hs := by
  rw [← allLeaves_collapseAll, h, allLeaves_collapseAll]

theorem collapseAll_append_congr (h : collapseAll gs = collapseAll hs)
    (rest : List (Grouping β)) : collapseAll (gs ++ rest) = collapseAll (hs ++ rest) := by
  rw [collapseAll_append, collapseAll_append, h]

theorem collapseAll_reverse_congr (h : collapseAll gs = collapseAll hs) :
    collapseAll gs.reverse = collapseAll hs.reverse := by
  rw [collapseAll_reverse, collapseAll_reverse, h]

theorem collapseAll_mapAll_congr (h : collapseAll gs = collapseAll hs) (f : β → γ) :
    collapseAll (mapAll f gs) = collapseAll (mapAll f hs) := by
  rw [collapseAll_mapAll, collapseAll_mapAll, h]

theorem collapseAll_group_congr {ms ns : List (Grouping β)} (hm : collapseAll ms = collapseAll ns)
    (h : collapseAll gs = collapseAll hs) :
    collapseAll (.group ms :: gs) = collapseAll (.group ns :: hs) := by
  rw [collapseAll_cons_group, collapseAll_cons_group, hm, h]

theorem flatten_congr (h : collapseAll gs = collapseAll hs) : flatten gs = flatten hs :=
  congrArg unwrapTop h

end Collapsed

/-! ## Lists that differ in one member -/

/-- Two lists with the same groups and the same members, but for one member. -/
structure DifferAt (k : Nat) (b c : β) (gs hs : List (Grouping β)) : Prop where
  groups : mapAll (fun _ => ()) gs = mapAll (fun _ => ()) hs
  members : ∃ before after, before.length = k ∧ leavesOfAll gs = before ++ b :: after ∧
    leavesOfAll hs = before ++ c :: after

theorem differAt_one (b c : β) : DifferAt 0 b c [.one b] [.one c] := ⟨rfl, [], [], rfl, rfl, rfl⟩

namespace DifferAt

variable {k : Nat} {b c : β} {gs hs : List (Grouping β)}

theorem append_left (h : DifferAt k b c gs hs) (before : List (Grouping β)) :
    DifferAt ((leavesOfAll before).length + k) b c (before ++ gs) (before ++ hs) := by
  obtain ⟨hgroups, left, right, hlength, hgs, hhs⟩ := h
  refine ⟨by rw [mapAll_append, mapAll_append, hgroups], leavesOfAll before ++ left, right, ?_,
    ?_, ?_⟩
  · rw [List.length_append, hlength]
  · rw [leavesOfAll_append, hgs, List.append_assoc]
  · rw [leavesOfAll_append, hhs, List.append_assoc]

theorem append_right (h : DifferAt k b c gs hs) (after : List (Grouping β)) :
    DifferAt k b c (gs ++ after) (hs ++ after) := by
  obtain ⟨hgroups, left, right, hlength, hgs, hhs⟩ := h
  refine ⟨by rw [mapAll_append, mapAll_append, hgroups], left, right ++ leavesOfAll after, hlength,
    ?_, ?_⟩
  · rw [leavesOfAll_append, hgs, List.append_assoc, List.cons_append]
  · rw [leavesOfAll_append, hhs, List.append_assoc, List.cons_append]

theorem group (h : DifferAt k b c gs hs) : DifferAt k b c [.group gs] [.group hs] := by
  obtain ⟨hgroups, left, right, hlength, hgs, hhs⟩ := h
  refine ⟨congrArg (fun ms => [Grouping.group ms]) hgroups, left, right, hlength, ?_, ?_⟩
  · rw [← hgs]
    exact List.append_nil _
  · rw [← hhs]
    exact List.append_nil _

theorem mapAll (h : DifferAt k b c gs hs) (f : β → γ) :
    DifferAt k (f b) (f c) (Grouping.mapAll f gs) (Grouping.mapAll f hs) := by
  obtain ⟨hgroups, left, right, hlength, hgs, hhs⟩ := h
  refine ⟨by rw [mapAll_mapAll, mapAll_mapAll, hgroups], left.map f, right.map f, ?_, ?_, ?_⟩
  · rw [List.length_map, hlength]
  · rw [leavesOfAll_mapAll, hgs, List.map_append, List.map_cons]
  · rw [leavesOfAll_mapAll, hhs, List.map_append, List.map_cons]

theorem flatten (h : DifferAt k b c gs hs) :
    DifferAt k b c (Grouping.flatten gs) (Grouping.flatten hs) := by
  obtain ⟨hgroups, left, right, hlength, hgs, hhs⟩ := h
  refine ⟨by rw [← flatten_mapAll, hgroups, flatten_mapAll], left, right, hlength, ?_, ?_⟩
  · rw [leavesOfAll_flatten, hgs]
  · rw [leavesOfAll_flatten, hhs]

end DifferAt

end Grouping

end PictureTree
