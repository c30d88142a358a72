/-
# `Proofs.Grouping.TrivialGroups` — groups that flattening does not see

An empty group, a group around a single grouping, and a group around a whole
list say nothing about the members.  `Gains` puts one such group somewhere:

    inside   Pads gs hs ⟹ Gains gs hs    between any two groupings, at any depth
    whole    Gains gs [group gs]          around the list itself

An `Edit` is a `Gains` read in either direction, a `Removes` is one read
backwards.

**Proved here.**

    an edit does not change what a list flattens to
    a removal takes one group away, so every order of removals ends
    where no removal is left the list is in normal form        (`isNormal_iff_not_removes`)

and therefore every order of removals ends in the flattened list.  No diamond
is closed for this: the three facts pin the end down without following two
removals to a common successor.
-/
import Mathlib.Logic.Relation
import PictureTree.Proofs.Grouping.NormalForm

namespace PictureTree

namespace Grouping

variable {β : Type}

/-! ## Putting a trivial group somewhere -/

/-- One trivial group more, between any two groupings at any depth: an empty
one, or one around a single grouping. -/
inductive Pads : List (Grouping β) → List (Grouping β) → Prop
  | empty (before after : List (Grouping β)) :
      Pads (before ++ after) (before ++ group [] :: after)
  | around (before : List (Grouping β)) (g : Grouping β) (after : List (Grouping β)) :
      Pads (before ++ g :: after) (before ++ group [g] :: after)
  | within (before : List (Grouping β)) {gs hs : List (Grouping β)}
      (after : List (Grouping β)) : Pads gs hs →
      Pads (before ++ group gs :: after) (before ++ group hs :: after)

/-- One trivial group more: inside a list, or around the whole of it. -/
inductive Gains : List (Grouping β) → List (Grouping β) → Prop
  | inside {gs hs : List (Grouping β)} : Pads gs hs → Gains gs hs
  | whole (gs : List (Grouping β)) : Gains gs [group gs]

/-- One trivial group comes or goes. -/
def Edit (gs hs : List (Grouping β)) : Prop := Gains gs hs ∨ Gains hs gs

/-- One trivial group goes. -/
def Removes (gs hs : List (Grouping β)) : Prop := Gains hs gs

theorem Pads.cons {gs hs : List (Grouping β)} (g : Grouping β) :
    Pads gs hs → Pads (g :: gs) (g :: hs)
  | .empty before after => .empty (g :: before) after
  | .around before k after => .around (g :: before) k after
  | .within before after h => .within (g :: before) after h

/-! ## An edit does not show -/

@[simp] theorem bundle?_toList (g : Option (Grouping β)) : bundle? g.toList = g := by
  cases g <;> rfl

/-- What is left of a group of one is what is left of its member. -/
theorem collapseAll_group_single (g : Grouping β) (gs : List (Grouping β)) :
    collapseAll (group [g] :: gs) = collapseAll (g :: gs) := by
  rw [collapseAll_cons_group]
  simp [collapseAll]

theorem collapseAll_eq_of_pads {gs hs : List (Grouping β)} (h : Pads gs hs) :
    collapseAll gs = collapseAll hs := by
  induction h with
  | empty before after => rw [collapseAll_append, collapseAll_append]; rfl
  | around before g after =>
      rw [collapseAll_append, collapseAll_append, collapseAll_group_single]
  | within before after _ ih =>
      rw [collapseAll_append, collapseAll_append, collapseAll_cons_group,
        collapseAll_cons_group, ih]

theorem unwrapTop_bundle (gs : List (Grouping β)) :
    unwrapTop (bundle? gs).toList = unwrapTop gs := by
  match gs with
  | [] => rfl
  | [g] => rfl
  | g :: k :: rest =>
      have h : unwrapTop (g :: k :: rest) = g :: k :: rest :=
        unwrapTop_of_not_single fun ms hms => by cases hms
      rw [h]
      rfl

theorem flatten_group (gs : List (Grouping β)) : flatten [group gs] = flatten gs := by
  show unwrapTop (collapseAll [group gs]) = unwrapTop (collapseAll gs)
  rw [collapseAll_cons_group]
  exact (congrArg unwrapTop (List.append_nil _)).trans (unwrapTop_bundle _)

theorem flatten_eq_of_gains {gs hs : List (Grouping β)} (h : Gains gs hs) :
    flatten gs = flatten hs := by
  cases h with
  | inside h => rw [flatten, flatten, collapseAll_eq_of_pads h]
  | whole => exact (flatten_group gs).symm

/-! ## Every order of removals ends -/

theorem length_groupsOfAll_of_pads {gs hs : List (Grouping β)} (h : Pads gs hs) :
    (groupsOfAll hs).length = (groupsOfAll gs).length + 1 := by
  induction h with
  | empty before after =>
      simp only [groupsOfAll_append, groupsOfAll_cons_group, groupsOfAll_nil, List.nil_append,
        List.length_append, List.length_cons]
      omega
  | around before g after =>
      simp only [groupsOfAll_append, groupsOfAll, groups, List.append_nil, List.length_append,
        List.length_cons]
      omega
  | within before after _ ih =>
      simp only [groupsOfAll_append, groupsOfAll_cons_group, List.length_append,
        List.length_cons]
      omega

theorem length_groupsOfAll_of_gains {gs hs : List (Grouping β)} (h : Gains gs hs) :
    (groupsOfAll hs).length = (groupsOfAll gs).length + 1 := by
  cases h with
  | inside h => exact length_groupsOfAll_of_pads h
  | whole => simp

theorem wellFounded_removes :
    WellFounded (fun hs gs : List (Grouping β) => Removes gs hs) := by
  refine Subrelation.wf ?_ (measure fun gs : List (Grouping β) => (groupsOfAll gs).length).wf
  intro hs gs h
  have hlen := length_groupsOfAll_of_gains h
  show (groupsOfAll hs).length < (groupsOfAll gs).length
  omega

/-! ## Where no removal is left -/

theorem not_tidy_of_pads {gs hs : List (Grouping β)} (h : Pads gs hs) : ¬ Tidy hs := by
  induction h with
  | empty before after =>
      intro ht
      obtain ⟨hlen, -⟩ := tidy_cons_group.mp (tidy_append.mp ht).2
      exact absurd hlen (by simp)
  | around before g after =>
      intro ht
      obtain ⟨hlen, -⟩ := tidy_cons_group.mp (tidy_append.mp ht).2
      exact absurd hlen (by simp)
  | within before after _ ih =>
      intro ht
      obtain ⟨-, hms, -⟩ := tidy_cons_group.mp (tidy_append.mp ht).2
      exact ih hms

theorem tidy_or_pads (hs : List (Grouping β)) : Tidy hs ∨ ∃ gs, Pads gs hs := by
  induction hs using forest_induction with
  | nil => exact .inl tidy_nil
  | one b hs ih =>
      rcases ih with ht | ⟨gs, hp⟩
      · exact .inl ht
      · exact .inr ⟨one b :: gs, hp.cons (one b)⟩
  | group ms hs ihm ih =>
      rcases ih with ht | ⟨gs, hp⟩
      · rcases ihm with htm | ⟨ks, hpm⟩
        · match ms, htm with
          | [], _ => exact .inr ⟨hs, .empty [] hs⟩
          | [g], _ => exact .inr ⟨g :: hs, .around [] g hs⟩
          | _ :: _ :: _, htm => exact .inl (tidy_cons_group.mpr ⟨by simp, htm, ht⟩)
        · exact .inr ⟨group ks :: hs, .within [] hs hpm⟩
      · exact .inr ⟨group ms :: gs, hp.cons (group ms)⟩

/-- The normal forms are the lists from which no trivial group can be removed. -/
theorem isNormal_iff_not_removes {gs : List (Grouping β)} :
    IsNormal gs ↔ ∀ hs, ¬ Removes gs hs := by
  constructor
  · intro hn hs h
    cases h with
    | inside h => exact not_tidy_of_pads h hn.tidy
    | whole => exact hn.not_single hs rfl
  · intro h
    refine ⟨?_, fun members hgs => h members (hgs ▸ .whole members)⟩
    rcases tidy_or_pads gs with ht | ⟨hs, hp⟩
    · exact ht
    · exact absurd (.inside hp) (h hs)

/-! ## Removals in any order -/

theorem flatten_eq_of_removals {gs hs : List (Grouping β)}
    (h : Relation.ReflTransGen Removes gs hs) : flatten gs = flatten hs := by
  induction h with
  | refl => rfl
  | tail _ hr ih => exact ih.trans (flatten_eq_of_gains hr).symm

/-- No edit of a trivial group changes what a list flattens to.  Hence the
order in which trivial groups are removed does not matter: removing ends, and
where nothing is left to remove the list is the flattened one. -/
theorem flatten_ignores_trivial_groups :
    (∀ gs hs : List (Grouping β), Edit gs hs → flatten gs = flatten hs) ∧
      WellFounded (fun hs gs : List (Grouping β) => Removes gs hs) ∧
      ∀ gs hs : List (Grouping β), Relation.ReflTransGen Removes gs hs →
        (∀ ks, ¬ Removes hs ks) → hs = flatten gs := by
  refine ⟨?_, wellFounded_removes, ?_⟩
  · rintro gs hs (h | h)
    · exact flatten_eq_of_gains h
    · exact (flatten_eq_of_gains h).symm
  · intro gs hs h hlast
    rw [flatten_eq_of_removals h, flatten_of_isNormal (isNormal_iff_not_removes.mpr hlast)]

/-- Three removals, each of a group that is trivial only after the one before. -/
theorem flatten_after_three_removals :
    Edit [group [one 0, group [one 1, group []]]] [group [one 0, group [one 1]]] ∧
      flatten [group [one 0, group [one 1, group []]]]
        = flatten [group [one 0, group [one 1]]] ∧
      (∀ ks, ¬ Removes [one 0, one 1] ks) ∧
      [one 0, one 1] = flatten [group [one 0, group [one 1, group []]]] := by
  have hempty : Removes [group [one 0, group [one 1, group []]]] [group [one 0, group [one 1]]] :=
    .inside (.within [] [] (.within [one 0] [] (.empty [one 1] [])))
  have haround : Removes [group [one 0, group [one 1]]] [group [one 0, one 1]] :=
    .inside (.within [] [] (.around [one 0] (one 1) []))
  have hwhole : Removes [group [one 0, one 1]] [one 0, one 1] := .whole _
  have hlast : ∀ ks, ¬ Removes [one 0, one 1] ks := isNormal_iff_not_removes.mp (by decide)
  have hall : Relation.ReflTransGen Removes
      [group [one 0, group [one 1, group []]]] [one 0, one 1] :=
    ((Relation.ReflTransGen.single hempty).tail haround).tail hwhole
  exact ⟨.inr hempty, flatten_ignores_trivial_groups.1 _ _ (.inr hempty), hlast,
    flatten_ignores_trivial_groups.2.2 _ _ hall hlast⟩

end Grouping

end PictureTree
