/-
# `Grouping` — things and groups of things

A grouping is a single member or a group of groupings, in painting order.
`flatten` removes the groups that say nothing: an empty group vanishes, a group
of one is replaced by its only member, and a list that comes down to one group
is replaced by the members of that group.
-/

namespace PictureTree

/-- A member, or a group of groupings. -/
inductive Grouping (β : Type) where
  | one (member : β)
  | group (members : List (Grouping β))
deriving Repr

namespace Grouping

variable {β γ : Type}

mutual

/-- The members at every depth, from left to right. -/
def leaves : Grouping β → List β
  | one b => [b]
  | group gs => leavesOfAll gs

/-- The members of a list of groupings, from left to right. -/
def leavesOfAll : List (Grouping β) → List β
  | [] => []
  | g :: gs => leaves g ++ leavesOfAll gs

end

mutual

/-- The grouping with every member replaced by its image. -/
def map (f : β → γ) : Grouping β → Grouping γ
  | one b => one (f b)
  | group gs => group (mapAll f gs)

/-- The groupings with every member replaced by its image. -/
def mapAll (f : β → γ) : List (Grouping β) → List (Grouping γ)
  | [] => []
  | g :: gs => map f g :: mapAll f gs

end

/-- A group without needless nesting: nothing for no members, the member
itself for one. -/
def bundle? : List (Grouping β) → Option (Grouping β)
  | [] => none
  | [g] => some g
  | gs => some (group gs)

mutual

/-- The grouping without groups of fewer than two, or nothing. -/
def collapse? : Grouping β → Option (Grouping β)
  | one b => some (one b)
  | group gs => bundle? (collapseAll gs)

/-- What is left of each grouping of a list. -/
def collapseAll : List (Grouping β) → List (Grouping β)
  | [] => []
  | g :: gs => (collapse? g).toList ++ collapseAll gs

end

/-- The members of a list that is a single group; any other list as it is. -/
def unwrapTop : List (Grouping β) → List (Grouping β)
  | [group gs] => gs
  | gs => gs

/-- The list without groups of fewer than two and without a single group
around everything. -/
def flatten (gs : List (Grouping β)) : List (Grouping β) := unwrapTop (collapseAll gs)

theorem leavesOfAll_eq_flatMap (gs : List (Grouping β)) : leavesOfAll gs = gs.flatMap leaves := by
  induction gs with
  | nil => rfl
  | cons g gs ih => simp [leavesOfAll, ih]

theorem mapAll_eq_map (f : β → γ) (gs : List (Grouping β)) : mapAll f gs = gs.map (map f) := by
  induction gs with
  | nil => rfl
  | cons g gs ih => simp [mapAll, ih]

theorem collapseAll_eq_filterMap (gs : List (Grouping β)) :
    collapseAll gs = gs.filterMap collapse? := by
  induction gs with
  | nil => rfl
  | cons g gs ih => cases h : collapse? g <;> simp [collapseAll, ih, h]

end Grouping

end PictureTree
