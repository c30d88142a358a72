/-
# `Proofs.Canvas.Places` — the angles of placed scopes

A placed scope turns its group when it ends, by its own angle, or, if that is
absolute, by what is missing at it.  What is missing is told by an angle that every
scope hands down in its context, so two accounts are kept of the same rotations:

    in the ends of scopes    what each of them will turn its group by
    in the contexts          what the scopes around it turn a figure by, together

`openDegrees` gives the first one from the heads of the open scopes alone, and
`InStep` says that the second one is its sum, from each scope outwards.  Every event
keeps them in step, whatever kinds of scopes are nested.  So an absolute angle is
what it says: a figure in such a scope, and in no placed scope further inside, is
turned by all placed scopes around it together by exactly this angle.
-/
import Mathlib.Tactic.Ring
import PictureTree.Proofs.Canvas.Origins
import PictureTree.Proofs.Context.Settings

namespace PictureTree

/-! ## Open scopes -/

namespace Event

/-- The heads of the open scopes after an event, the innermost first. -/
def headsAfter (heads : List ScopeHead) : Event → List ScopeHead
  | .enter head => head :: heads
  | .exit _ => heads.tail
  | .command _ => heads

/-- The heads of the scopes that some events leave open, the innermost first. -/
def openHeads (events : List Event) : List ScopeHead := events.foldl headsAfter []

end Event

/-- The head of a placed scope. -/
def ScopeHead.isPlace : ScopeHead → Bool
  | .place .. => true
  | _ => false

/-- The innermost placed scope has an absolute angle. -/
def InnermostAbsolute (heads : List ScopeHead) (a : Numeral) : Prop :=
  ∃ starred refPoint position,
    heads.find? ScopeHead.isPlace = some (.place starred refPoint (some ⟨true, a⟩) position)

section Ends

open scoped PictureTree.Scalar

variable {α : Type} [Scalar α]

/-- What the end of a placed scope turns its group by. -/
def Exit.placed : Exit α → α
  | .place _ angle => angle
  | _ => 0

/-- What the end of a turned scope turns its group by. -/
def Exit.turned : Exit α → α
  | .turn _ angle => angle
  | _ => 0

/-- No parameter changes the angle of the placed scopes around. -/
theorem Context.placeAngle_setAll (c : Context α) (palette : Palette α) (ps : List Param) :
    (c.setAll palette ps).placeAngle = c.placeAngle := by
  refine setAll_keeps (P := fun d => d.placeAngle = c.placeAngle) ?_ rfl ps
  intro d p s h _
  cases s <;> exact h

/-- No command changes the angle of its scope. -/
theorem Scope.placeAngle_obey (o : Options α) (palette : Palette α) (s : Scope α) (c : Command) :
    (s.obey o palette c).context.placeAngle = s.context.placeAngle := by
  cases c with
  | set ps => exact s.context.placeAngle_setAll palette ps
  | shape | includePicture => simp only [obey, emitAll_eq]
  | framedBox | text =>
      simp only [obey, write]
      split <;> rfl
  | defineColor | newColor | path => rfl
  | useColor =>
      simp only [obey, chooseSpec]
      split <;> rfl
  | textColor =>
      simp only [obey, chooseSpec, write]
      split <;> split <;> rfl

theorem Scope.context_ended (o : Options α) (s : Scope α) (kind : ScopeKind) :
    (s.ended o kind).context = s.context := by
  rw [ended_eq]

theorem Scope.exit_ended (o : Options α) (s : Scope α) (kind : ScopeKind) :
    (s.ended o kind).exit = s.exit := by
  rw [ended_eq]

end Ends

variable {α : Type} [ExactScalar α]

/-! ## Rotations in exact arithmetic -/

namespace ExactScalar

/-- A written zero is the zero of the field. -/
theorem literal_zero : @OfNat.ofNat α 0 (Scalar.instOfNat 0) = (0 : α) :=
  (literal_eq 0).trans Nat.cast_zero

theorem rotation_zero : Scalar.rotation (0 : α) = 0 := by
  simp [Scalar.rotation]

theorem rotation_add (x y : α) :
    Scalar.rotation (x + y) = Scalar.rotation x + Scalar.rotation y := by
  simp only [Scalar.rotation]
  ring

theorem rotation_sum (xs : List α) :
    Scalar.rotation xs.sum = (xs.map Scalar.rotation).sum := by
  induction xs with
  | nil => exact rotation_zero
  | cons x xs ih => rw [List.sum_cons, rotation_add, ih, List.map_cons, List.sum_cons]

end ExactScalar

/-! ## The degrees of open scopes -/

/-- The degrees that a scope turns its group by, where the scopes around it turn by
some degrees already. -/
def ScopeHead.placeDegrees (around : α) : ScopeHead → α
  | .place _ _ (some a) _ =>
      if a.absolute then Scalar.ofNumeral a.degrees - around else Scalar.ofNumeral a.degrees
  | _ => 0

/-- The degrees that each open scope turns its group by, the innermost first. -/
def openDegrees : List ScopeHead → List α
  | [] => []
  | head :: outer => head.placeDegrees (openDegrees outer).sum :: openDegrees outer

theorem length_openDegrees (heads : List ScopeHead) :
    (openDegrees heads : List α).length = heads.length := by
  induction heads with
  | nil => rfl
  | cons head heads ih => exact congrArg (· + 1) ih

theorem drop_openDegrees (heads : List ScopeHead) (i : Nat) :
    (openDegrees heads : List α).drop i = openDegrees (heads.drop i) := by
  induction heads generalizing i with
  | nil => simp [openDegrees]
  | cons head heads ih =>
      cases i with
      | zero => rfl
      | succ i => exact ih i

/-- If the innermost placed scope has an absolute angle, then that is what all of
them turn by. -/
theorem sum_openDegrees_of_absolute {heads : List ScopeHead} {a : Numeral}
    (h : InnermostAbsolute heads a) :
    (openDegrees heads : List α).sum = Scalar.ofNumeral a := by
  obtain ⟨starred, refPoint, position, h⟩ := h
  induction heads with
  | nil => cases h
  | cons head heads ih =>
      rw [openDegrees, List.sum_cons]
      cases head with
      | place =>
          cases Option.some.inj h
          exact sub_add_cancel _ _
      | picture | block | custom | turn => exact (zero_add _).trans (ih h)

/-! ## A scope begins -/

namespace Scope

theorem placeDegrees_eq (outer : Context α) (starred : Bool) (refPoint : Option String)
    (angle : Option AngleSpec) (position : Coord) :
    placeDegrees outer angle
      = (ScopeHead.place starred refPoint angle position).placeDegrees outer.placeAngle := by
  cases angle with
  | none => exact ExactScalar.literal_zero
  | some a => rfl

/-- A scope goes on with the angle of the scopes around it, and adds its own. -/
theorem placeAngle_begin (palette : Palette α) (outer : Context α) (head : ScopeHead) :
    (Scope.begin palette outer head).context.placeAngle
      = head.placeDegrees outer.placeAngle + outer.placeAngle := by
  cases head with
  | place starred refPoint angle position =>
      rw [← placeDegrees_eq, add_comm]
      rfl
  | picture starred ps | custom starred ps | turn ps =>
      exact (outer.child.placeAngle_setAll palette ps).trans (zero_add _).symm
  | block => exact (zero_add _).symm

/-- The end of a scope turns by the degrees of its head. -/
theorem placed_begin (palette : Palette α) (outer : Context α) (head : ScopeHead) :
    (Scope.begin palette outer head).exit.placed
      = Scalar.rotation (head.placeDegrees outer.placeAngle) := by
  cases head with
  | place starred refPoint angle position =>
      rw [← placeDegrees_eq]
      rfl
  | picture | block | custom | turn =>
      have hzero : Scalar.rotation (0 : α) = 0 := ExactScalar.rotation_zero
      exact ExactScalar.literal_zero.trans hzero.symm

end Scope

/-! ## Both accounts in step -/

namespace Canvas

/-- The ends of the open scopes turn by the degrees of their heads, and every scope
has the sum of these from itself outwards. -/
structure InStep (c : Canvas α) (heads : List ScopeHead) : Prop where
  ends : c.scopes.map (fun s => s.exit.placed)
    = (openDegrees heads).map Scalar.rotation ++ [0]
  contexts : c.scopes.map (fun s => s.context.placeAngle)
    = (openDegrees heads).tails.map List.sum

namespace InStep

variable {c : Canvas α} {heads : List ScopeHead}

theorem blank (o : Options α) (palette : Palette α) : (blank o palette).InStep [] where
  ends := congrArg (fun x : α => [x]) ExactScalar.literal_zero
  contexts := congrArg (fun x : α => [x]) ExactScalar.literal_zero

/-- What changes neither the end of the innermost scope nor its angle keeps both
accounts. -/
theorem put (h : c.InStep heads) {p : Palette α} {s : Scope α}
    (hexit : s.exit = c.innermost.exit)
    (hangle : s.context.placeAngle = c.innermost.context.placeAngle) :
    (c.put (p, s)).InStep heads where
  ends := (map_scopes_put _ (congrArg Exit.placed hexit)).trans h.ends
  contexts := (map_scopes_put _ hangle).trans h.contexts

theorem depth_eq (h : c.InStep heads) : c.depth = heads.length := by
  have hlength := congrArg List.length h.ends
  simpa [scopes, depth, length_openDegrees] using hlength

/-- The innermost scope has the sum of all degrees. -/
theorem angle_innermost (h : c.InStep heads) :
    c.innermost.context.placeAngle = (openDegrees heads).sum := by
  have hcontexts := h.contexts
  rw [scopes_eq, List.map_cons] at hcontexts
  cases heads <;> exact (List.cons.inj hcontexts).1

theorem enter (h : c.InStep heads) (o : Options α) (head : ScopeHead) :
    (c.step o (.enter head)).InStep (head :: heads) := by
  let s := Scope.begin c.palette c.innermost.context head
  have hturn : s.exit.placed
      = Scalar.rotation (head.placeDegrees (openDegrees heads).sum) := by
    rw [← h.angle_innermost]
    exact Scope.placed_begin ..
  have hangle : s.context.placeAngle = (openDegrees (head :: heads)).sum := by
    rw [openDegrees, List.sum_cons, ← h.angle_innermost]
    exact Scope.placeAngle_begin ..
  exact ⟨congrArg₂ List.cons hturn h.ends, congrArg₂ List.cons hangle h.contexts⟩

/-- A scope that ends takes its degrees with it. -/
theorem of_push {s : Scope α} (h : (c.push s).InStep heads) : c.InStep heads.tail := by
  cases heads with
  | nil => exact absurd h.depth_eq (Nat.succ_ne_zero _)
  | cons head heads => exact ⟨(List.cons.inj h.ends).2, (List.cons.inj h.contexts).2⟩

theorem exit (h : c.InStep heads) (o : Options α) (kind : ScopeKind) :
    (c.step o (.exit kind)).InStep heads.tail := by
  obtain ⟨p, root, - | ⟨s, outer⟩⟩ := c
  · obtain rfl : heads = [] := List.length_eq_zero_iff.mp h.depth_eq.symm
    have hstep : Canvas.step o ⟨p, root, []⟩ (.exit kind)
        = Canvas.put ⟨p, root, []⟩ (p, root.ended o kind) := by
      cases kind <;> rfl
    rw [hstep]
    exact h.put (root.exit_ended o kind) (congrArg _ (root.context_ended o kind))
  · let around : Canvas α := ⟨p, root, outer⟩
    have hstep : (around.push s).step o (.exit kind)
        = around.put (p, around.innermost.emit o (s.ended o kind).leave) :=
      step_exit_push o around p s kind
    have hstill : around.InStep heads.tail := of_push h
    show Canvas.InStep ((around.push s).step o (.exit kind)) heads.tail
    rw [hstep]
    exact hstill.put rfl rfl

theorem step (h : c.InStep heads) (o : Options α) (e : Event) :
    (c.step o e).InStep (e.headsAfter heads) := by
  cases e with
  | enter head => exact h.enter o head
  | exit kind => exact h.exit o kind
  | command k =>
      rw [step_command]
      exact h.put (Scope.exit_obey ..) (Scope.placeAngle_obey ..)

theorem run (h : c.InStep heads) (o : Options α) (events : List Event) :
    (c.run o events).InStep (events.foldl Event.headsAfter heads) := by
  induction events generalizing c heads with
  | nil => exact h
  | cons e events ih => exact ih (h.step o e)

theorem opened (h : c.InStep heads) :
    c.opened.map (fun s => s.exit.placed) = (openDegrees heads).map Scalar.rotation := by
  have hends := h.ends
  rw [scopes, List.map_append] at hends
  exact (List.append_inj' hends rfl).1

/-- The ends of the scopes from one on outwards turn by the degrees of their heads. -/
theorem sum_placed (h : c.InStep heads) (i : Nat) :
    ((c.opened.drop i).map fun s => s.exit.placed).sum
      = Scalar.rotation (openDegrees (heads.drop i)).sum := by
  rw [List.map_drop, h.opened, ← List.map_drop, drop_openDegrees, ExactScalar.rotation_sum]

end InStep

end Canvas

/-! ## Figures -/

/-- A figure is turned by the end of a scope as its group is. -/
theorem Exit.rotation_move (e : Exit α) (f : Figure α) :
    (e.move f).rotation = f.rotation + e.placed + e.turned := by
  cases e with
  | keep => simp [move, placed, turned]
  | place position angle =>
      have hturn : ((Exit.place position angle).move f).rotation = f.rotation + angle := rfl
      simp [hturn, placed, turned]
  | turn center angle =>
      have hturn : ((Exit.turn center angle).move f).rotation = f.rotation + angle := rfl
      simp [hturn, placed, turned]

/-- A figure is turned by all ends around it, those of placed scopes and those of
turned ones. -/
theorem Placed.rotation_result (p : Placed α) :
    p.result.rotation = p.figure.rotation + (p.exits.map Exit.placed).sum
      + (p.exits.map Exit.turned).sum := by
  obtain ⟨f, exits⟩ := p
  show (exits.foldl (fun f e => e.move f) f).rotation = _
  induction exits generalizing f with
  | nil => simp
  | cons e exits ih =>
      rw [List.foldl_cons, ih (e.move f), e.rotation_move]
      simp only [List.map_cons, List.sum_cons]
      ring

/-- At any time, the angle of every open scope is the sum of the degrees that the
placed scopes from it outwards will turn by; and if the innermost of them has an
absolute angle, this is that angle.  So a figure of a document is turned by all
placed scopes around it together by the absolute angle of the innermost one, if it
has one, and otherwise only by the turned scopes. -/
theorem Canvas.absolute_angles_hold (o : Options α) (palette : Palette α) :
    (∀ events : List Event,
      let heads := Event.openHeads events
      let c := (blank o palette).run o events
      c.opened.map (fun s => s.exit.placed) = (openDegrees heads).map Scalar.rotation ∧
        c.scopes.map (fun s => s.context.placeAngle) = (openDegrees heads).tails.map List.sum ∧
        ∀ i a, InnermostAbsolute (heads.drop i) a →
          ((c.opened.drop i).map fun s => s.exit.placed).sum
            = Scalar.rotation (Scalar.ofNumeral a)) ∧
      ∀ items : List Item,
        Grouping.leavesOfAll ((drawItems o palette items).finish o)
            = (Grouping.leavesOfAll (scenes o palette items)).map Placed.result ∧
          Grouping.AllLeaves (fun p => ∃ before after, Item.eventsOfAll items = before ++ after ∧
            (∃ f ∈ ((blank o palette).run o before).figuresAt o after.head?,
              p.figure = f ∨ p.figure = f.asChord) ∧
            p.exits = ((blank o palette).run o before).opened.map Scope.exit ∧
            p.result.rotation = p.figure.rotation + (p.exits.map Exit.placed).sum
              + (p.exits.map Exit.turned).sum ∧
            ∀ a, InnermostAbsolute (Event.openHeads before) a →
              (p.exits.map Exit.placed).sum = Scalar.rotation (Scalar.ofNumeral a))
            (scenes o palette items) := by
  have hstep (events : List Event) :
      ((blank o palette).run o events).InStep (Event.openHeads events) :=
    (InStep.blank o palette).run o events
  have habsolute (events : List Event) (i : Nat) (a : Numeral)
      (h : InnermostAbsolute ((Event.openHeads events).drop i) a) :
      ((((blank o palette).run o events).opened.drop i).map fun s => s.exit.placed).sum
        = Scalar.rotation (Scalar.ofNumeral a) := by
    rw [(hstep events).sum_placed, sum_openDegrees_of_absolute h]
  refine ⟨fun events => ⟨(hstep events).opened, (hstep events).contexts, habsolute events⟩,
    fun items => ⟨leaves_finish_drawItems o palette items, fun p hp => ?_⟩⟩
  obtain ⟨before, after, hevents, hfigure, hexits⟩ := exists_origin o palette items p hp
  refine ⟨before, after, hevents, hfigure, hexits, p.rotation_result, fun a ha => ?_⟩
  rw [hexits, List.map_map]
  exact habsolute before 0 a ha

/-- An absolute angle in a relative one, with other scopes between them and inside. -/
theorem Canvas.absolute_angles_hold_in_relative :
    let degrees (n : Nat) : Numeral := .decimal false n 0
    let events : List Event :=
      [.enter (.place false none (some ⟨false, degrees 30⟩) .origin), .enter .block,
        .enter (.place false none (some ⟨true, degrees 90⟩) .origin),
        .enter (.turn [] .origin ⟨degrees 45, none⟩)]
    let c := (blank (.standard : Options ℝ) .predefined).run .standard events
    InnermostAbsolute (Event.openHeads events) (degrees 90) ∧
      (c.opened.map fun s => s.exit.placed).sum
        = Scalar.rotation (Scalar.ofNumeral (degrees 90)) := by
  intro degrees events c
  have hinnermost : InnermostAbsolute (Event.openHeads events) (degrees 90) :=
    ⟨false, none, .origin, rfl⟩
  exact ⟨hinnermost,
    ((absolute_angles_hold .standard .predefined).1 events).2.2 0 (degrees 90) hinnermost⟩

end PictureTree
