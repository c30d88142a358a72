/-
# `Proofs.Path.Merging` — runs are the path, cut where it has to be

A path is drawn by calls: moves, straight and curved segments, closings.  Each
segment goes from the cursor it was issued at to its target; `Leg` is such a
segment together with the pauses behind it, the moves and closings that come
before the next segment.

The legs of a path fall into parts.  Two legs that follow each other are
`Joined` if they are of one kind and no pause stands between them:

    within a part       every leg is joined to the next one
    between two parts   the last leg is not joined to the first one behind it

`runs_conserve_segments` says that the runs of a path are these parts, written
as points: one run for each part, with the part's segments between its points,
closed if the first thing behind its last segment was a closing.

The induction is on the calls, from the first one on.  A leg either begins a
run of its own (`Merges.cut`), or it is put in front of the run behind it
(`Merges.join`); that the two fit together is the one thing that is not local,
for it says that a leg without a pause ends at the cursor the next one is
issued at.
-/
import PictureTree.Path
import Mathlib.Data.List.Chain

namespace PictureTree

variable {α : Type}

/-! ## Calls -/

/-- A call that draws a part of a path. -/
inductive PathCall (α : Type) where
  | moveTo (p : Point α)
  | lineTo (p : Point α)
  | curveTo (p : Point α)
  | close

namespace PathCall

/-- The path after a call. -/
def apply (path : Path α) : PathCall α → Path α
  | moveTo p => path.moveTo p
  | lineTo p => path.lineTo p
  | curveTo p => path.curveTo p
  | close => path.close

/-- The cursor after a call. -/
def cursorFrom (cursor : Point α) : PathCall α → Point α
  | moveTo p | lineTo p | curveTo p => p
  | close => cursor

/-- What a call does at a cursor: a segment goes from there to its target. -/
def stepFrom (cursor : Point α) : PathCall α → PathStep α
  | moveTo _ => .move
  | lineTo p => .segment .lines cursor p
  | curveTo p => .segment .curves cursor p
  | close => .close

/-- What some calls do one after the other, the first of them at a cursor. -/
def stepsFrom (cursor : Point α) : List (PathCall α) → List (PathStep α)
  | [] => []
  | call :: calls => call.stepFrom cursor :: stepsFrom (call.cursorFrom cursor) calls

end PathCall

/-- The path that some calls draw. -/
def Path.drawn [Scalar α] (calls : List (PathCall α)) : Path α :=
  calls.foldl PathCall.apply .empty

theorem PathCall.cursor_apply (path : Path α) (call : PathCall α) :
    (call.apply path).cursor = call.cursorFrom path.cursor := by
  cases call <;> rfl

theorem PathCall.steps_apply (path : Path α) (call : PathCall α) :
    (call.apply path).steps = path.steps ++ [call.stepFrom path.cursor] := by
  cases call with
  | moveTo p => exact Path.steps_moveTo path p
  | lineTo p => exact Path.steps_segmentTo path .lines p
  | curveTo p => exact Path.steps_segmentTo path .curves p
  | close => exact Path.steps_close path

theorem Path.steps_foldl_apply (path : Path α) (calls : List (PathCall α)) :
    (calls.foldl PathCall.apply path).steps
      = path.steps ++ PathCall.stepsFrom path.cursor calls := by
  induction calls generalizing path with
  | nil => simp [PathCall.stepsFrom]
  | cons call calls ih =>
      rw [List.foldl_cons, ih, PathCall.steps_apply, PathCall.cursor_apply, List.append_assoc]
      rfl

theorem Path.steps_drawn [Scalar α] (calls : List (PathCall α)) :
    (drawn calls).steps = PathCall.stepsFrom .origin calls :=
  steps_foldl_apply .empty calls

/-! ## Segments and legs -/

/-- A kind, a start and a target. -/
abbrev Segment (α : Type) := SegmentKind × Point α × Point α

namespace PathStep

/-- The segment of a step, if it draws one. -/
def segment? : PathStep α → Option (Segment α)
  | segment kind start target => some (kind, start, target)
  | move | close => none

/-- The moves and closings that some steps begin with. -/
def pauses (steps : List (PathStep α)) : List (PathStep α) :=
  steps.takeWhile fun step => step.segment?.isNone

end PathStep

/-- A segment, and the pauses between it and the next one. -/
structure Leg (α : Type) where
  kind : SegmentKind
  start : Point α
  target : Point α
  pauses : List (PathStep α)

namespace Leg

/-- The segment of a leg. -/
def segment (leg : Leg α) : Segment α := (leg.kind, leg.start, leg.target)

/-- The legs of some steps. -/
def ofSteps : List (PathStep α) → List (Leg α)
  | [] => []
  | .segment kind start target :: steps =>
      ⟨kind, start, target, PathStep.pauses steps⟩ :: ofSteps steps
  | .move :: steps | .close :: steps => ofSteps steps

/-- Legs of one kind with neither a move nor a closing between them. -/
def Joined (leg next : Leg α) : Prop := leg.kind = next.kind ∧ leg.pauses = []

/-- A closing stands right behind the leg. -/
def Closes (leg : Leg α) : Prop := leg.pauses.head? = some .close

theorem map_segment_ofSteps (steps : List (PathStep α)) :
    (ofSteps steps).map segment = steps.filterMap PathStep.segment? := by
  induction steps with
  | nil => rfl
  | cons step steps ih =>
      cases step with
      | move => exact ih
      | close => exact ih
      | segment kind start target => exact congrArg ((kind, start, target) :: ·) ih

end Leg

/-! ## Runs and parts -/

namespace PathRun

/-- The segments between the points of a run. -/
def segments (run : PathRun α) : List (Segment α) :=
  (run.points.zip run.points.tail).map fun (p, q) => (run.kind, p, q)

/-- The run with a point more at its start. -/
def prepend (p : Point α) (run : PathRun α) : PathRun α := { run with points := p :: run.points }

theorem segments_prepend {run : PathRun α} {p q : Point α} {points : List (Point α)}
    (h : run.points = q :: points) :
    (run.prepend p).segments = (run.kind, p, q) :: run.segments := by
  simp [segments, prepend, h]

end PathRun

/-- A run is a part of a path, written as points. -/
structure PathRun.Writes (run : PathRun α) (part : List (Leg α)) : Prop where
  two_points : 2 ≤ run.points.length
  segments : run.segments = part.map Leg.segment
  closed : run.opened = false ↔ ∃ last ∈ part.getLast?, last.Closes

/-- The legs of a path, cut into parts wherever two of them are not joined, and
the parts written as runs. -/
structure Merges (legs : List (Leg α)) (parts : List (List (Leg α))) (runs : List (PathRun α)) :
    Prop where
  flatten : parts.flatten = legs
  written : List.Forall₂ PathRun.Writes runs parts
  joined : ∀ part ∈ parts, part.IsChain Leg.Joined
  apart : parts.IsChain fun part next =>
    ∀ last ∈ part.getLast?, ∀ first ∈ next.head?, ¬ last.Joined first

namespace PathRun.Writes

variable {run : PathRun α} {leg next : Leg α} {part : List (Leg α)}

/-- A run of two points. -/
theorem single (h : run.points = [leg.start, leg.target]) (hkind : run.kind = leg.kind)
    (hclosed : run.opened = false ↔ leg.Closes) : run.Writes [leg] where
  two_points := by rw [h]; exact le_refl 2
  segments := by simp [PathRun.segments, h, hkind, Leg.segment]
  closed := by simpa using hclosed

/-- The run starts where its first leg does, and is of its kind. -/
theorem exists_points (h : run.Writes (next :: part)) :
    run.kind = next.kind ∧ ∃ points, run.points = next.start :: points := by
  obtain ⟨p, q, points, hpoints⟩ : ∃ p q points, run.points = p :: q :: points := by
    match hp : run.points, h.two_points with
    | p :: q :: points, _ => exact ⟨p, q, points, rfl⟩
  have hfirst := h.segments
  simp only [PathRun.segments, hpoints, List.tail_cons, List.zip_cons_cons, List.map_cons,
    Leg.segment, List.cons.injEq, Prod.mk.injEq] at hfirst
  obtain ⟨⟨hkind, hstart, -⟩, -⟩ := hfirst
  exact ⟨hkind, q :: points, hstart ▸ hpoints⟩

/-- A leg in front of a run that it leads to. -/
theorem cons (h : run.Writes (next :: part)) (hkind : leg.kind = next.kind)
    (htarget : leg.target = next.start) :
    (run.prepend leg.start).Writes (leg :: next :: part) := by
  obtain ⟨hrun, points, hpoints⟩ := h.exists_points
  refine ⟨?_, ?_, ?_⟩
  · have htwo := h.two_points
    simp only [PathRun.prepend, List.length_cons]
    omega
  · have hleg : (run.kind, leg.start, next.start) = leg.segment := by
      rw [Leg.segment, hrun, hkind, htarget]
    rw [PathRun.segments_prepend hpoints, h.segments, hleg]
    rfl
  · rw [List.getLast?_cons_cons]
    exact h.closed

end PathRun.Writes

namespace Merges

variable {leg next : Leg α} {legs : List (Leg α)} {parts : List (List (Leg α))}
  {run : PathRun α} {runs : List (PathRun α)}

theorem nil : Merges ([] : List (Leg α)) [] [] :=
  ⟨rfl, .nil, fun _ h => absurd h List.not_mem_nil, .nil⟩

/-- A leg that is not joined to the next one is a part of its own. -/
theorem cut (h : Merges legs parts runs) (hrun : run.Writes [leg])
    (hcut : ∀ next ∈ legs.head?, ¬ leg.Joined next) :
    Merges (leg :: legs) ([leg] :: parts) (run :: runs) where
  flatten := congrArg (leg :: ·) h.flatten
  written := .cons hrun h.written
  joined := List.forall_mem_cons.mpr ⟨.singleton leg, h.joined⟩
  apart := by
    refine List.isChain_cons.mpr ⟨fun part hpart last hlast first hfirst => ?_, h.apart⟩
    obtain rfl : leg = last := by simpa using hlast
    refine hcut first ?_
    obtain ⟨rest, rfl⟩ : ∃ rest, parts = part :: rest := by
      cases parts with
      | nil => exact absurd hpart (by simp)
      | cons p rest => exact ⟨rest, by simpa using hpart⟩
    rw [← h.flatten, List.flatten_cons, List.head?_append, Option.mem_def.mp hfirst]
    rfl

/-- A leg that is joined to the next one, and leads to it, lies in its part. -/
theorem join (h : Merges (next :: legs) parts runs) (hjoined : leg.Joined next)
    (htarget : leg.target = next.start) :
    ∃ parts', Merges (leg :: next :: legs) parts' (runs.modifyHead (.prepend leg.start)) := by
  obtain ⟨hflatten, hwritten, hchain, hapart⟩ := h
  cases hwritten with
  | nil => exact absurd hflatten (by simp)
  | @cons run part runs parts hrun hwritten =>
      -- a run has two points, so its part has a leg, and that is the next one
      obtain ⟨rest, rfl⟩ : ∃ rest, part = next :: rest := by
        cases part with
        | nil =>
            have hnone : run.points.zip run.points.tail = [] := List.map_eq_nil_iff.mp hrun.segments
            have htwo := hrun.two_points
            have hlength := congrArg List.length hnone
            simp only [List.length_zip, List.length_tail, List.length_nil] at hlength
            omega
        | cons first rest => exact ⟨rest, by simpa using (List.cons.inj hflatten).1⟩
      refine ⟨(leg :: next :: rest) :: parts, congrArg (leg :: ·) hflatten,
        .cons (hrun.cons hjoined.1 htarget) hwritten, ?_, ?_⟩
      · obtain ⟨hpart, hparts⟩ := List.forall_mem_cons.mp hchain
        exact List.forall_mem_cons.mpr ⟨.cons_cons hjoined hpart, hparts⟩
      · obtain ⟨hnext, hparts⟩ := List.isChain_cons.mp hapart
        refine List.isChain_cons.mpr ⟨fun part hpart last hlast => ?_, hparts⟩
        exact hnext part hpart last (by simpa using hlast)

end Merges

/-! ## Merging -/

/-- Merging does not look at the first point of a run that it continues. -/
theorem PathStep.runsFrom_prepend (p : Point α) (run : PathRun α) (steps : List (PathStep α)) :
    runsFrom (some (run.prepend p)) steps = (runsFrom (some run) steps).modifyHead (.prepend p) := by
  induction steps generalizing run with
  | nil => rfl
  | cons step steps ih =>
      cases step with
      | move => rfl
      | close => rfl
      | segment kind start target =>
          by_cases hkind : run.kind = kind
          · have hprepend : (run.prepend p).kind = kind := hkind
            simp only [runsFrom, hkind, hprepend, if_pos]
            exact ih (run.extend target)
          · have hprepend : (run.prepend p).kind ≠ kind := hkind
            simp only [runsFrom, hkind, hprepend, if_neg, not_false_eq_true]
            rfl

namespace PathStep

variable {kind : SegmentKind} {start cursor target : Point α} {parts : List (List (Leg α))}
  {steps : List (PathStep α)}

/-- A run that nothing follows. -/
theorem merges_nil :
    Merges [⟨kind, start, cursor, pauses []⟩] [[⟨kind, start, cursor, pauses []⟩]]
      (runsFrom (some (.ofSegment kind start cursor)) []) := by
  refine Merges.nil.cut (.single rfl rfl ?_) (fun next h => absurd h (by simp))
  simp [PathRun.ofSegment, Leg.Closes, pauses]

/-- A run that a pause ends. -/
theorem merges_pause (h : Merges (Leg.ofSteps steps) parts (runsFrom none steps))
    {pause : PathStep α} (hpause : pause.segment? = none) :
    ∃ parts, Merges (⟨kind, start, cursor, pauses (pause :: steps)⟩ :: Leg.ofSteps steps) parts
      (runsFrom (some (.ofSegment kind start cursor)) (pause :: steps)) := by
  have hcut : ∀ next ∈ (Leg.ofSteps steps).head?,
      ¬ Leg.Joined ⟨kind, start, cursor, pauses (pause :: steps)⟩ next :=
    fun next _ hjoined => by simpa [pauses, hpause] using hjoined.2
  cases pause with
  | segment => cases hpause
  | move | close =>
      refine ⟨_, h.cut (.single rfl rfl ?_) hcut⟩
      simp [PathRun.ofSegment, PathRun.closed, Leg.Closes, pauses, segment?]

/-- A run that a further segment continues, or ends if it is of the other kind. -/
theorem merges_segment {next : SegmentKind}
    (h : Merges (Leg.ofSteps (.segment next cursor target :: steps)) parts
      (runsFrom none (.segment next cursor target :: steps))) :
    ∃ parts, Merges (⟨kind, start, cursor, pauses (.segment next cursor target :: steps)⟩ ::
        Leg.ofSteps (.segment next cursor target :: steps)) parts
      (runsFrom (some (.ofSegment kind start cursor)) (.segment next cursor target :: steps)) := by
  by_cases hkind : kind = next
  · have hprepend : runsFrom (some (.ofSegment kind start cursor))
          (.segment next cursor target :: steps)
        = (runsFrom none (.segment next cursor target :: steps)).modifyHead (.prepend start) := by
      subst hkind
      simp only [runsFrom, PathRun.ofSegment, if_pos]
      exact runsFrom_prepend start (.ofSegment kind cursor target) steps
    rw [hprepend]
    exact h.join ⟨hkind, rfl⟩ rfl
  · refine ⟨[⟨kind, start, cursor, []⟩] :: parts, ?_⟩
    have hcut : ∀ leg ∈ (Leg.ofSteps (.segment next cursor target :: steps)).head?,
        ¬ Leg.Joined ⟨kind, start, cursor, []⟩ leg := by
      rintro leg hleg ⟨hsame, -⟩
      obtain rfl : _ = leg := by simpa [Leg.ofSteps] using hleg
      exact hkind hsame
    have hruns : runsFrom (some (.ofSegment kind start cursor))
          (.segment next cursor target :: steps)
        = .ofSegment kind start cursor :: runsFrom none (.segment next cursor target :: steps) := by
      simp [runsFrom, PathRun.ofSegment, hkind]
    rw [hruns]
    refine h.cut (.single rfl rfl ?_) hcut
    simp [PathRun.ofSegment, Leg.Closes, pauses, segment?]

end PathStep

/-- Drawing on from a cursor, with nothing to continue or with a run of one
segment that ends at the cursor. -/
theorem PathCall.merges_stepsFrom (calls : List (PathCall α)) (cursor : Point α) :
    (∃ parts, Merges (Leg.ofSteps (stepsFrom cursor calls)) parts
      (PathStep.runsFrom none (stepsFrom cursor calls))) ∧
    ∀ kind start, ∃ parts,
      Merges (⟨kind, start, cursor, PathStep.pauses (stepsFrom cursor calls)⟩ ::
          Leg.ofSteps (stepsFrom cursor calls)) parts
        (PathStep.runsFrom (some (.ofSegment kind start cursor)) (stepsFrom cursor calls)) := by
  induction calls generalizing cursor with
  | nil => exact ⟨⟨[], .nil⟩, fun kind start => ⟨_, PathStep.merges_nil⟩⟩
  | cons call calls ih =>
      obtain ⟨⟨parts, hrest⟩, hsegment⟩ := ih (call.cursorFrom cursor)
      cases call with
      | moveTo p => exact ⟨⟨parts, hrest⟩, fun _ _ => PathStep.merges_pause hrest rfl⟩
      | close => exact ⟨⟨parts, hrest⟩, fun _ _ => PathStep.merges_pause hrest rfl⟩
      | lineTo p =>
          obtain ⟨parts, hline⟩ := hsegment .lines cursor
          exact ⟨⟨parts, hline⟩, fun _ _ => PathStep.merges_segment hline⟩
      | curveTo p =>
          obtain ⟨parts, hcurve⟩ := hsegment .curves cursor
          exact ⟨⟨parts, hcurve⟩, fun _ _ => PathStep.merges_segment hcurve⟩

/-! ## The runs of a path -/

namespace Merges

variable {legs : List (Leg α)} {parts : List (List (Leg α))} {runs : List (PathRun α)}

theorem flatMap_segments (h : Merges legs parts runs) :
    runs.flatMap PathRun.segments = legs.map Leg.segment := by
  obtain ⟨rfl, hwritten, -, -⟩ := h
  induction hwritten with
  | nil => rfl
  | cons hrun _ ih =>
      rw [List.flatMap_cons, ih, hrun.segments, List.flatten_cons, List.map_append]

end Merges

/-- The runs of a path have its segments between their points, in order, and
are cut where the kind changes or a pause stands, and nowhere else; a run is
closed if and only if the first call behind its last segment was a closing. -/
theorem Path.runs_conserve_segments [Scalar α] (calls : List (PathCall α)) :
    (drawn calls).runs.flatMap PathRun.segments
        = (PathCall.stepsFrom .origin calls).filterMap PathStep.segment? ∧
      ∃ parts, Merges (Leg.ofSteps (PathCall.stepsFrom .origin calls)) parts (drawn calls).runs := by
  obtain ⟨⟨parts, hparts⟩, -⟩ := PathCall.merges_stepsFrom calls (.origin : Point α)
  have hruns : (drawn calls).runs = PathStep.runsFrom none (PathCall.stepsFrom .origin calls) :=
    congrArg (PathStep.runsFrom none) (steps_drawn calls)
  rw [hruns]
  exact ⟨hparts.flatMap_segments.trans (Leg.map_segment_ofSteps _), parts, hparts⟩

end PictureTree
