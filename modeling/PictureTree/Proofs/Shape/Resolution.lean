/-
# `Proofs.Shape.Resolution` — when a command can be resolved

A shape command is given coordinates and arguments, and draws something or
nothing.  Which of the two is said here without the drawing functions: a
command resolves if

    enough_coords    it has as many coordinates as it cannot do without
    enough_numbers   it has as many arguments as it cannot do without
    finite           every number that it computes from them is finite

`ShapeCommand.measured` lists those numbers for each command, the point of every
coordinate that the command reads among them; one number at the end of a long
list counts as much as any other.  The angle of a polar size is not read, and so
not listed.  A path command resolves if its `targets` are finite: of the `coords`
of a curve, the two control points are not read.

`outlines?_isSome_iff` joins this to the drawing functions, one lemma a
command; `trace?_isSome_iff` and `figure?_isSome_iff` do the same for path
commands and included pictures.
-/
import PictureTree.Canvas.Scope

open scoped PictureTree.Scalar

namespace PictureTree

/-! ## Options that are guarded -/

@[simp] theorem isSome_guard_bind {β γ : Type} (p : Bool) (x : β) (f : β → Option γ) :
    ((if p then some x else none).bind f).isSome = (p && (f x).isSome) := by
  cases p <;> rfl

theorem eq_none_of_isSome_iff {β : Type} {x : Option β} {p : Prop} (h : x.isSome = true ↔ p)
    (hp : ¬ p) : x = none :=
  Option.not_isSome_iff_eq_none.mp (mt h.mp hp)

theorem exists_of_isSome_iff {β : Type} {x : Option β} {p : Prop} (h : x.isSome = true ↔ p)
    (hp : p) : ∃ b, x = some b :=
  Option.isSome_iff_exists.mp (h.mpr hp)

/-- Two options one after the other, when the second does not look at the first. -/
theorem isSome_bind_iff {β γ : Type} {x : Option β} {f : β → Option γ} {p : Prop}
    (h : ∀ b, (f b).isSome = true ↔ p) : (x.bind f).isSome = true ↔ x.isSome = true ∧ p := by
  cases x with
  | none => simp
  | some b => simpa using h b

theorem mapM_guard {β γ : Type} {f : β → Option γ} {p : β → Bool} {g : β → γ}
    (h : ∀ b, f b = if p b then some (g b) else none) (bs : List β) :
    bs.mapM f = if bs.all p then some (bs.map g) else none := by
  induction bs with
  | nil => rfl
  | cons b bs ih =>
      rw [List.mapM_cons, ih, h]
      cases hb : p b <;> cases hbs : bs.all p <;> simp [hb, hbs]

/-! ## Finite numbers and points -/

variable {α : Type}

/-- The two coordinates of a point. -/
def Point.numbers (p : Point α) : List α := [p.x, p.y]

variable [Scalar α]

/-- Both coordinates are finite. -/
def Point.isFinite (p : Point α) : Bool := Scalar.isFinite p.x && Scalar.isFinite p.y

/-- No number of a list is infinite or "not a number". -/
def AllFinite (xs : List α) : Prop := ∀ x ∈ xs, Scalar.isFinite x = true

instance (xs : List α) : Decidable (AllFinite xs) :=
  inferInstanceAs (Decidable (∀ x ∈ xs, Scalar.isFinite x = true))

@[simp] theorem allFinite_nil : AllFinite ([] : List α) :=
  fun _ h => absurd h List.not_mem_nil

@[simp] theorem allFinite_cons {x : α} {xs : List α} :
    AllFinite (x :: xs) ↔ Scalar.isFinite x = true ∧ AllFinite xs := List.forall_mem_cons

@[simp] theorem allFinite_append {xs ys : List α} :
    AllFinite (xs ++ ys) ↔ AllFinite xs ∧ AllFinite ys := List.forall_mem_append

@[simp] theorem allFinite_numbers {p : Point α} : AllFinite p.numbers ↔ p.isFinite = true := by
  simp [Point.numbers, Point.isFinite]

theorem allFinite_flatMap_numbers {β : Type} {f : β → Point α} {bs : List β} :
    AllFinite (bs.flatMap fun b => (f b).numbers) ↔ bs.all (fun b => (f b).isFinite) = true := by
  induction bs with
  | nil => simp
  | cons b bs ih => simp [ih]

theorem toOption_finite (x : α) :
    (finite x).toOption = if Scalar.isFinite x then some x else none := by
  unfold finite Scalar.isFinite
  cases Scalar.isNaN x <;> cases Scalar.isInfinite x <;> rfl

theorem toOption_ofCoords (x y : α) :
    (Point.ofCoords? x y).toOption
      = if (⟨x, y⟩ : Point α).isFinite then some ⟨x, y⟩ else none := by
  unfold Point.ofCoords? finite Point.isFinite Scalar.isFinite
  cases Scalar.isNaN x <;> cases Scalar.isInfinite x <;> cases Scalar.isNaN y <;>
    cases Scalar.isInfinite y <;> rfl

namespace Context

/-- The point of model space that a coordinate stands for, finite or not. -/
def place (c : Context α) (coord : Coord) : Point α :=
  ⟨(c.units.offset coord).x, -(c.units.offset coord).y⟩

/-- The numbers of the points that coordinates stand for. -/
def placed (c : Context α) (coords : List Coord) : List α :=
  coords.flatMap fun coord => (c.place coord).numbers

/-- The numbers of coordinates in grid steps. -/
def gridNumbers (c : Context α) (coords : List Coord) : List α :=
  coords.flatMap fun coord => (c.units.gridPoint coord).numbers

theorem checked?_eq (x : α) : checked? x = if Scalar.isFinite x then some x else none :=
  toOption_finite x

theorem point?_eq (c : Context α) (coord : Coord) :
    c.point? coord = if (c.place coord).isFinite then some (c.place coord) else none :=
  toOption_ofCoords _ _

theorem gridPoint?_eq (c : Context α) (coord : Coord) :
    c.gridPoint? coord = if (c.units.gridPoint coord).isFinite
      then some (c.units.gridPoint coord) else none :=
  toOption_ofCoords _ _

@[simp] theorem allFinite_placed {c : Context α} {coords : List Coord} :
    AllFinite (c.placed coords) ↔ coords.all (fun coord => (c.place coord).isFinite) = true :=
  allFinite_flatMap_numbers

@[simp] theorem allFinite_gridNumbers {c : Context α} {coords : List Coord} :
    AllFinite (c.gridNumbers coords) ↔
      coords.all (fun coord => (c.units.gridPoint coord).isFinite) = true :=
  allFinite_flatMap_numbers

theorem gridPoints?_eq (c : Context α) (coords : List Coord) :
    coords.mapM c.gridPoint? = if coords.all (fun coord => (c.units.gridPoint coord).isFinite)
      then some (coords.map c.units.gridPoint) else none :=
  mapM_guard (gridPoint?_eq c) coords

theorem points?_eq (c : Context α) (coords : List Coord) :
    c.points? coords = if coords.all (fun coord => (c.place coord).isFinite)
      then some (coords.map c.place) else none :=
  mapM_guard (point?_eq c) coords

end Context

/-! ## What a shape command needs -/

/-- The numbers that a lattice is computed from: the given coordinates, the size
of a step, the place of the origin, and the corners as seen from there. -/
def Lattice.measured (c : Context α) (coords : List Coord) : List α :=
  let (origin, start, stop) := span c.bounds (coords.map c.units.gridPoint)
  c.gridNumbers coords ++ [c.units.stepX, c.units.stepY] ++
    Point.numbers ⟨origin.x * c.units.stepX, -origin.y * c.units.stepY⟩ ++
    Point.numbers ⟨start.x - origin.x, start.y - origin.y⟩ ++
    Point.numbers ⟨stop.x - origin.x, stop.y - origin.y⟩

namespace ShapeCommand

/-- How many coordinates a command cannot do without. -/
def leastCoords : ShapeCommand → Nat
  | .frame => 1
  | .polygon => 2
  | .bezier => 3
  | .curve .ends => 4
  | .curve _ => 2
  | _ => 0

/-- How many arguments a command cannot do without. -/
def leastNumbers : ShapeCommand → Nat
  | .circle | .disk => 1
  | .wedge | .arc _ => 3
  | .plot _ => 2
  | _ => 0

/-- The numbers of a figure with a center and two measures. -/
def measuredBox (c : Context α) (a : Arguments) (width height : Quantity → α) : List α :=
  let (center, size) := centerAndSize a.coords
  c.placed [center] ++ [width (measures size).1, height (measures size).2]

/-- The numbers of a circle, or of a part of one. -/
def measuredCircle (c : Context α) (a : Arguments) : List α :=
  c.placed (a.coords.take 1) ++
    (a.numbers.take 1).map fun q => Scalar.abs (c.units.length q)

/-- The numbers that a command computes from its coordinates and arguments. -/
def measured (c : Context α) (a : Arguments) : ShapeCommand → List α
  | .frame => c.placed (a.coords.take 2)
  | .diamond => measuredBox c a (fun q => 2 * Scalar.abs (c.units.x q))
      (fun q => 2 * Scalar.abs (c.units.y q))
  | .triangle => measuredBox c a c.units.x c.units.y
  | .ellipse => measuredBox c a (fun q => Scalar.abs (c.units.x q))
      (fun q => Scalar.abs (c.units.y q))
  | .circle | .disk | .wedge | .arc _ => measuredCircle c a
  | .line | .segment | .polygon | .bezier | .dots | .curve _ => c.placed a.coords
  | .dot => c.placed (a.coords.take 1)
  | .grid | .axes => Lattice.measured c a.coords
  | .plot _ => (a.numbers.take 2).map c.units.gridX ++ [c.units.stepX, c.units.stepY]

/-- A command that has all that it needs, and computes with finite numbers. -/
structure Resolves (c : Context α) (a : Arguments) (command : ShapeCommand) : Prop where
  enough_coords : command.leastCoords ≤ a.coords.length
  enough_numbers : command.leastNumbers ≤ a.numbers.length
  finite : AllFinite (command.measured c a)

theorem resolves_iff {c : Context α} {a : Arguments} {command : ShapeCommand} :
    command.Resolves c a ↔
      command.leastCoords ≤ a.coords.length ∧ command.leastNumbers ≤ a.numbers.length ∧
        AllFinite (command.measured c a) :=
  ⟨fun h => ⟨h.1, h.2, h.3⟩, fun h => ⟨h.1, h.2.1, h.2.2⟩⟩

instance (c : Context α) (a : Arguments) (command : ShapeCommand) :
    Decidable (command.Resolves c a) :=
  decidable_of_iff _ resolves_iff.symm

end ShapeCommand

namespace ShapeCommand

/-! ## One lemma a command -/

section Commands

variable (c : Context α) (a : Arguments)

theorem frame?_isSome_iff : (frame? c a).isSome = true ↔ Resolves c a .frame := by
  rw [resolves_iff, frame?, measured]
  match a.coords with
  | [] => simp [leastCoords]
  | [p] => simp [leastCoords, leastNumbers, Context.point?_eq, bind, pure]
  | p :: q :: _ => simp [leastCoords, leastNumbers, Context.point?_eq, bind, pure]

theorem diamond?_isSome_iff : (diamond? c a).isSome = true ↔ Resolves c a .diamond := by
  rw [resolves_iff, diamond?, measured, measuredBox]
  simp [leastCoords, leastNumbers, Context.point?_eq, Context.checked?_eq, bind, pure]

theorem triangle?_isSome_iff : (triangle? c a).isSome = true ↔ Resolves c a .triangle := by
  rw [resolves_iff, triangle?, measured, measuredBox]
  simp [leastCoords, leastNumbers, Context.point?_eq, Context.checked?_eq, bind, pure]

theorem ellipse?_isSome_iff : (ellipse? c a).isSome = true ↔ Resolves c a .ellipse := by
  rw [resolves_iff, ellipse?, measured, measuredBox]
  simp [leastCoords, leastNumbers, Context.point?_eq, Context.checked?_eq, bind, pure]

theorem firstPoint?_isSome_iff (coords : List Coord) :
    (c.firstPoint? coords).isSome = true ↔ AllFinite (c.placed (coords.take 1)) := by
  match coords with
  | [] => simp [Context.firstPoint?]
  | p :: _ => simp [Context.firstPoint?, Context.point?_eq]

theorem radius?_isSome_iff :
    (radius? c a).isSome = true ↔ 1 ≤ a.numbers.length ∧
      AllFinite ((a.numbers.take 1).map fun q => Scalar.abs (c.units.length q)) := by
  rw [radius?]
  match a.numbers with
  | [] => simp
  | q :: _ => simp [Context.checked?_eq]

theorem circle?_isSome_iff :
    (circle? c a).isSome = true ↔ 1 ≤ a.numbers.length ∧ AllFinite (measuredCircle c a) := by
  have h : (circle? c a).isSome = true ↔
      (c.firstPoint? a.coords).isSome = true ∧ (radius? c a).isSome = true ∧ True :=
    isSome_bind_iff fun _ => isSome_bind_iff fun _ => by simp [pure]
  rw [h, firstPoint?_isSome_iff, radius?_isSome_iff, measuredCircle, allFinite_append]
  constructor
  · rintro ⟨hpoint, ⟨hlen, hradius⟩, -⟩
    exact ⟨hlen, hpoint, hradius⟩
  · rintro ⟨hlen, hpoint, hradius⟩
    exact ⟨hpoint, ⟨hlen, hradius⟩, trivial⟩

theorem arc?_isSome_iff (style : ArcStyle) :
    (arc? c a style).isSome = true ↔ 3 ≤ a.numbers.length ∧ AllFinite (measuredCircle c a) := by
  have hangle : ∀ i, ((a.numbers[i]?).map fun q => Scalar.toRadians (q.value : α)).isSome = true ↔
      i < a.numbers.length := by simp
  have h : (arc? c a style).isSome = true ↔
      (c.firstPoint? a.coords).isSome = true ∧ (radius? c a).isSome = true ∧
        ((a.numbers[1]?).map fun q => Scalar.toRadians (q.value : α)).isSome = true ∧
        ((a.numbers[2]?).map fun q => Scalar.toRadians (q.value : α)).isSome = true ∧ True :=
    isSome_bind_iff fun _ => isSome_bind_iff fun _ => isSome_bind_iff fun _ =>
      isSome_bind_iff fun _ => by simp [pure]
  rw [h, firstPoint?_isSome_iff, radius?_isSome_iff, measuredCircle, allFinite_append, hangle,
    hangle]
  constructor
  · rintro ⟨hpoint, ⟨-, hradius⟩, -, hlen, -⟩
    exact ⟨hlen, hpoint, hradius⟩
  · rintro ⟨hlen, hpoint, hradius⟩
    exact ⟨hpoint, ⟨by omega, hradius⟩, by omega, by omega, trivial⟩

theorem isSome_points_bind {γ : Type} (coords : List Coord) (f : List (Point α) → Option γ) :
    (c.points? coords >>= f).isSome = true ↔
      AllFinite (c.placed coords) ∧ (f (coords.map c.place)).isSome = true := by
  rw [Context.points?_eq, Context.allFinite_placed, ← Bool.and_eq_true]
  exact Bool.eq_iff_iff.mp (isSome_guard_bind _ _ f)

theorem isSome_gridPoints_bind {γ : Type} (coords : List Coord)
    (f : List (Point α) → Option γ) :
    (coords.mapM c.gridPoint? >>= f).isSome = true ↔
      AllFinite (c.gridNumbers coords) ∧ (f (coords.map c.units.gridPoint)).isSome = true := by
  rw [Context.gridPoints?_eq, Context.allFinite_gridNumbers, ← Bool.and_eq_true]
  exact Bool.eq_iff_iff.mp (isSome_guard_bind _ _ f)

theorem line?_isSome_iff : (line? c a).isSome = true ↔ Resolves c a .line := by
  rw [resolves_iff, line?, isSome_points_bind, measured]
  match a.coords with
  | [] => simp [leastCoords, leastNumbers, pure]
  | [p] => simp [leastCoords, leastNumbers, pure]
  | p :: q :: _ => simp [leastCoords, leastNumbers, pure]

theorem segment?_isSome_iff : (segment? c a).isSome = true ↔ Resolves c a .segment := by
  rw [resolves_iff, segment?, isSome_points_bind, measured]
  simp [leastCoords, leastNumbers, pure]

theorem polygon?_isSome_iff : (polygon? c a).isSome = true ↔ Resolves c a .polygon := by
  rw [resolves_iff, polygon?, isSome_points_bind, measured]
  match a.coords with
  | [] => simp [leastCoords]
  | [p] => simp [leastCoords]
  | [p, q] => simp [leastCoords, leastNumbers, pure]
  | p :: q :: r :: _ => simp [leastCoords, leastNumbers, pure]

theorem dot?_isSome_iff : (dot? c a).isSome = true ↔ Resolves c a .dot := by
  have h : (dot? c a).isSome = true ↔ (c.firstPoint? a.coords).isSome = true ∧ True :=
    isSome_bind_iff fun _ => by simp [pure]
  rw [h, firstPoint?_isSome_iff, resolves_iff, measured]
  simp [leastCoords, leastNumbers]

theorem dots?_isSome_iff : (dots? c a).isSome = true ↔ Resolves c a .dots := by
  rw [resolves_iff, dots?, isSome_points_bind, measured]
  simp [leastCoords, leastNumbers, pure]

theorem ofSegments?_isSome_iff (start : Point α) (segments : List (Point α × Point α × Point α)) :
    (Bezier.ofSegments? start segments).isSome = true ↔ segments ≠ [] := by
  match segments with
  | [] => simp [Bezier.ofSegments?]
  | s :: more =>
      rw [Bezier.ofSegments?]
      split <;> simp

omit [Scalar α] in
theorem triples_ne_nil_iff {β : Type} {bs : List β} : Bezier.triples bs ≠ [] ↔ 3 ≤ bs.length := by
  match bs with
  | [] => simp [Bezier.triples]
  | [_] => simp [Bezier.triples]
  | [_, _] => simp [Bezier.triples]
  | _ :: _ :: _ :: _ => simp [Bezier.triples]

/-- Three points are a segment, whether the start is among them or not: with
fewer the start would be missing from a multiple of three, or a segment from
the rest. -/
theorem ofPoints?_isSome_iff (ps : List (Point α)) :
    (Bezier.ofPoints? ps).isSome = true ↔ 3 ≤ ps.length := by
  unfold Bezier.ofPoints?
  split
  · rw [ofSegments?_isSome_iff, triples_ne_nil_iff]
  · next hmod =>
      match ps, hmod with
      | [], _ => simp
      | p :: rest, hmod =>
          rw [ofSegments?_isSome_iff, triples_ne_nil_iff, List.length_cons]
          rw [List.length_cons] at hmod
          omega

theorem bezier?_isSome_iff : (bezier? c a).isSome = true ↔ Resolves c a .bezier := by
  have h : ∀ ps : List (Point α),
      (do return only (Outline.bezier (← Bezier.ofPoints? ps)) : Option (Drawn α)).isSome = true ↔
        3 ≤ ps.length := fun ps =>
    (isSome_bind_iff (p := True) fun _ => by simp [pure]).trans
      ((iff_of_eq (and_true _)).trans (ofPoints?_isSome_iff ps))
  rw [resolves_iff, bezier?, isSome_points_bind, h, measured]
  simp [leastCoords, leastNumbers, and_comm]

theorem curve?_isSome_iff (kind : CurveKind) :
    (curve? c a kind).isSome = true ↔ Resolves c a (.curve kind) := by
  rw [resolves_iff, curve?, isSome_points_bind, measured]
  cases kind with
  | ends =>
      match a.coords with
      | [] => simp [leastCoords, passed]
      | [p] => simp [leastCoords, passed]
      | [p, q] => simp [leastCoords, passed]
      | [p, q, r] => simp [leastCoords, passed]
      | p :: q :: r :: t :: _ => simp [leastCoords, leastNumbers, passed, pure]
  | «open» =>
      match a.coords with
      | [] => simp [leastCoords, passed]
      | [p] => simp [leastCoords, passed]
      | p :: q :: _ => simp [leastCoords, leastNumbers, passed, pure]
  | closed =>
      match a.coords with
      | [] => simp [leastCoords, passed]
      | [p] => simp [leastCoords, passed]
      | p :: q :: _ => simp [leastCoords, leastNumbers, passed, pure]

theorem ofCoords?_isSome_iff (coords : List Coord) :
    (Lattice.ofCoords? c coords).isSome = true ↔ AllFinite (Lattice.measured c coords) := by
  rw [Lattice.ofCoords?, isSome_gridPoints_bind, Lattice.measured]
  rcases Lattice.span c.bounds (coords.map c.units.gridPoint) with ⟨origin, start, stop⟩
  simp [Context.checked?_eq, toOption_ofCoords, bind, pure]

theorem grid?_isSome_iff : (grid? c a).isSome = true ↔ Resolves c a .grid := by
  have h : (grid? c a).isSome = true ↔ (Lattice.ofCoords? c a.coords).isSome = true ∧ True :=
    isSome_bind_iff fun _ => by simp [pure]
  rw [h, ofCoords?_isSome_iff, resolves_iff, measured]
  simp [leastCoords, leastNumbers]

theorem axes?_isSome_iff : (axes? c a).isSome = true ↔ Resolves c a .axes := by
  have h : (axes? c a).isSome = true ↔ (Lattice.ofCoords? c a.coords).isSome = true ∧ True :=
    isSome_bind_iff fun _ => by simp [pure]
  rw [h, ofCoords?_isSome_iff, resolves_iff, measured]
  simp [leastCoords, leastNumbers]

theorem plot?_isSome_iff (function : String) :
    (plot? c a function).isSome = true ↔ Resolves c a (.plot function) := by
  rw [resolves_iff, plot?, measured]
  match a.numbers with
  | [] => simp [leastNumbers]
  | [p] => simp [leastNumbers, bind, Context.checked?_eq]
  | p :: q :: _ => simp [leastCoords, leastNumbers, Context.checked?_eq, bind, pure]

end Commands

/-! ## All commands -/

/-- A command draws something if and only if it has all that it needs and
computes with finite numbers. -/
theorem outlines?_isSome_iff {c : Context α} {a : Arguments} {command : ShapeCommand} :
    (command.outlines? c a).isSome = true ↔ command.Resolves c a := by
  cases command with
  | frame => exact frame?_isSome_iff c a
  | diamond => exact diamond?_isSome_iff c a
  | triangle => exact triangle?_isSome_iff c a
  | ellipse => exact ellipse?_isSome_iff c a
  | circle =>
      rw [outlines?, circle?_isSome_iff]
      simp [resolves_iff, leastCoords, leastNumbers, measured]
  | disk =>
      rw [outlines?, circle?_isSome_iff]
      simp [resolves_iff, leastCoords, leastNumbers, measured]
  | wedge =>
      rw [outlines?, arc?_isSome_iff]
      simp [resolves_iff, leastCoords, leastNumbers, measured]
  | arc clockwise =>
      rw [outlines?, arc?_isSome_iff]
      simp [resolves_iff, leastCoords, leastNumbers, measured]
  | line => exact line?_isSome_iff c a
  | segment => exact segment?_isSome_iff c a
  | polygon => exact polygon?_isSome_iff c a
  | bezier => exact bezier?_isSome_iff c a
  | dot => exact dot?_isSome_iff c a
  | dots => exact dots?_isSome_iff c a
  | grid => exact grid?_isSome_iff c a
  | axes => exact axes?_isSome_iff c a
  | plot function => exact plot?_isSome_iff c a function
  | curve kind => exact curve?_isSome_iff c a kind

end ShapeCommand

/-! ## Path commands -/

namespace PathCommand

/-- The coordinates that a path command goes to; of a curve that is the last one. -/
def targets : PathCommand → List Coord
  | .moveTo p | .curveTo _ _ _ p => [p]
  | .lineTo _ ps => ps
  | .close => []

/-- All coordinates of a path command, the control points of a curve among them. -/
def coords : PathCommand → List Coord
  | .moveTo p => [p]
  | .lineTo _ ps => ps
  | .curveTo _ first second last => [first, second, last]
  | .close => []

/-- A path command that goes to finite points only. -/
def Resolves (c : Context α) (k : PathCommand) : Prop := AllFinite (c.placed k.targets)

instance (c : Context α) (k : PathCommand) : Decidable (k.Resolves c) :=
  inferInstanceAs (Decidable (AllFinite (c.placed k.targets)))

theorem points?_targets_isSome_iff {c : Context α} {k : PathCommand} :
    (c.points? k.targets).isSome = true ↔ k.Resolves c := by
  rw [Resolves, Context.points?_eq, Context.allFinite_placed]
  split <;> simp_all

/-- Whether a path command draws does not depend on the path it is given. -/
theorem trace?_isSome_iff {c : Context α} {path : Path α} {k : PathCommand} :
    (Scope.trace? c path k).isSome = true ↔ k.Resolves c := by
  cases k with
  | moveTo p => simp [Scope.trace?, Resolves, targets, Context.point?_eq]
  | lineTo relative ps => simp [Scope.trace?, Resolves, targets, Context.points?_eq]
  | curveTo relative first second last =>
      simp [Scope.trace?, Resolves, targets, Context.point?_eq]
  | close => simp [Scope.trace?, Resolves, targets, Context.placed]

end PathCommand

/-! ## Included pictures -/

namespace Inclusion

/-- A picture file of the given size with all parameters set. -/
def ofParams (units : Units α) (ps : List Param) (size : Nat × Nat) : Inclusion α :=
  ps.foldl (set units (ratio size.1 size.2)) (ofSize size.1 size.2)

/-- The two measures of a picture. -/
def numbers (i : Inclusion α) : List α := [i.width, i.height]

theorem figure?_isSome_iff {units : Units α} {ps : List Param} {path : String} {size : Nat × Nat} :
    (figure? units ps path size).isSome = true ↔ AllFinite (ofParams units ps size).numbers := by
  simp [figure?, ofParams, numbers, Context.checked?_eq, bind, pure]

end Inclusion

end PictureTree
