/-
# `Proofs.Document.Walk` — a document as it is walked through

A walk through a document is told as a list of visits, each of them a name and
some data:

    begins e    before the items of the document or of a scope, with what the scope is given
    ends e      after them, with nothing
    the rest    one visit for each command, with what the command is given

No visit carries items.  Several things that a document may say share a name, and
only the data tell them apart: the two directions of an arc, the three kinds of
curves, relative and absolute points, the models of a colour.

Nothing is lost on the way.  `rebuild?` puts a document together again, from its
visits and nothing else, by keeping a stack of the scopes that are still open;
`walk_well_nested_and_faithful` says that it gives back every document, and no
document for visits that are not a walk.
-/
import PictureTree.Document

namespace PictureTree

/-! ## Visits -/

/-- What has a beginning and an end: the document itself, or a scope. -/
inductive Enclosure where
  | document
  | scope (kind : ScopeKind)
deriving DecidableEq, Repr

/-- The names of visits. -/
inductive VisitName where
  | begins (e : Enclosure)
  | ends (e : Enclosure)
  | set
  | frame | diamond | triangle | ellipse | circle | disk | wedge | arc | line | segment
  | polygon | bezier | dot | dots | grid | axes | plot | curve
  | framedBox | defineColor | newColor | useColor | textColor | includePicture
  | moveTo | lineTo | curveTo | close
  | text
deriving DecidableEq, Repr

/-- What a visit may tell. -/
inductive Datum where
  | flag (b : Bool)
  | text (s : String)
  | refPoint (name : Option String)
  | params (ps : List Param)
  | point (c : Coord)
  | points (cs : List Coord)
  | angle (a : Option AngleSpec)
  | quantity (q : Quantity)
  | arguments (a : Arguments)
  | curve (kind : CurveKind)
  | newColor (kind : NewColor)
  | color (spec : ColorSpec)
deriving DecidableEq, Repr

/-- One step of a walk. -/
structure Visit where
  name : VisitName
  data : List Datum
deriving DecidableEq, Repr

/-- The visit at the beginning of a scope. -/
def ScopeHead.visit : ScopeHead → Visit
  | .picture starred params corners =>
      ⟨.begins (.scope .picture), [.flag starred, .params params, .points corners]⟩
  | .block => ⟨.begins (.scope .block), []⟩
  | .custom starred params => ⟨.begins (.scope .custom), [.flag starred, .params params]⟩
  | .place starred refPoint angle position =>
      ⟨.begins (.scope .place), [.flag starred, .refPoint refPoint, .angle angle, .point position]⟩
  | .turn params center angle =>
      ⟨.begins (.scope .turn), [.params params, .point center, .quantity angle]⟩

/-- The visit of a shape command. -/
def ShapeCommand.visit (a : Arguments) : ShapeCommand → Visit
  | .frame => ⟨.frame, [.arguments a]⟩
  | .diamond => ⟨.diamond, [.arguments a]⟩
  | .triangle => ⟨.triangle, [.arguments a]⟩
  | .ellipse => ⟨.ellipse, [.arguments a]⟩
  | .circle => ⟨.circle, [.arguments a]⟩
  | .disk => ⟨.disk, [.arguments a]⟩
  | .wedge => ⟨.wedge, [.arguments a]⟩
  | .arc clockwise => ⟨.arc, [.arguments a, .flag clockwise]⟩
  | .line => ⟨.line, [.arguments a]⟩
  | .segment => ⟨.segment, [.arguments a]⟩
  | .polygon => ⟨.polygon, [.arguments a]⟩
  | .bezier => ⟨.bezier, [.arguments a]⟩
  | .dot => ⟨.dot, [.arguments a]⟩
  | .dots => ⟨.dots, [.arguments a]⟩
  | .grid => ⟨.grid, [.arguments a]⟩
  | .axes => ⟨.axes, [.arguments a]⟩
  | .plot function => ⟨.plot, [.arguments a, .text function]⟩
  | .curve kind => ⟨.curve, [.arguments a, .curve kind]⟩

/-- The visit of a path command. -/
def PathCommand.visit : PathCommand → Visit
  | .moveTo point => ⟨.moveTo, [.point point]⟩
  | .lineTo relative points => ⟨.lineTo, [.points points, .flag relative]⟩
  | .curveTo relative first second last =>
      ⟨.curveTo, [.points [first, second, last], .flag relative]⟩
  | .close => ⟨.close, []⟩

/-- The visit of a command. -/
def Command.visit : Command → Visit
  | .set params => ⟨.set, [.params params]⟩
  | .shape command arguments => command.visit arguments
  | .framedBox name words => ⟨.framedBox, [.text name, .text words]⟩
  | .defineColor name model values => ⟨.defineColor, [.text name, .text model, .text values]⟩
  | .newColor kind name values => ⟨.newColor, [.newColor kind, .text name, .text values]⟩
  | .useColor color => ⟨.useColor, [.color color]⟩
  | .textColor color words => ⟨.textColor, [.color color, .text words]⟩
  | .includePicture params file => ⟨.includePicture, [.params params, .text file]⟩
  | .path command => command.visit
  | .text word => ⟨.text, [.text word]⟩

/-- The visit of an event. -/
def Event.visit : Event → Visit
  | .enter head => head.visit
  | .exit kind => ⟨.ends (.scope kind), []⟩
  | .command c => c.visit

/-- The visits at the two ends of a document. -/
def Visit.first : Visit := ⟨.begins .document, []⟩

@[inherit_doc Visit.first]
def Visit.last : Visit := ⟨.ends .document, []⟩

/-- The walk through a document. -/
def walk (items : List Item) : List Visit :=
  .first :: ((Item.eventsOfAll items).map Event.visit ++ [.last])

/-! ## What is visited -/

namespace Visit

/-- The event that is visited. -/
def event? : Visit → Option Event
  | ⟨.begins (.scope .picture), [.flag starred, .params params, .points corners]⟩ =>
      some (.enter (.picture starred params corners))
  | ⟨.begins (.scope .block), []⟩ => some (.enter .block)
  | ⟨.begins (.scope .custom), [.flag starred, .params params]⟩ =>
      some (.enter (.custom starred params))
  | ⟨.begins (.scope .place), [.flag starred, .refPoint refPoint, .angle angle, .point position]⟩ =>
      some (.enter (.place starred refPoint angle position))
  | ⟨.begins (.scope .turn), [.params params, .point center, .quantity angle]⟩ =>
      some (.enter (.turn params center angle))
  | ⟨.ends (.scope kind), []⟩ => some (.exit kind)
  | ⟨.set, [.params params]⟩ => some (.command (.set params))
  | ⟨.frame, [.arguments a]⟩ => some (.command (.shape .frame a))
  | ⟨.diamond, [.arguments a]⟩ => some (.command (.shape .diamond a))
  | ⟨.triangle, [.arguments a]⟩ => some (.command (.shape .triangle a))
  | ⟨.ellipse, [.arguments a]⟩ => some (.command (.shape .ellipse a))
  | ⟨.circle, [.arguments a]⟩ => some (.command (.shape .circle a))
  | ⟨.disk, [.arguments a]⟩ => some (.command (.shape .disk a))
  | ⟨.wedge, [.arguments a]⟩ => some (.command (.shape .wedge a))
  | ⟨.arc, [.arguments a, .flag clockwise]⟩ => some (.command (.shape (.arc clockwise) a))
  | ⟨.line, [.arguments a]⟩ => some (.command (.shape .line a))
  | ⟨.segment, [.arguments a]⟩ => some (.command (.shape .segment a))
  | ⟨.polygon, [.arguments a]⟩ => some (.command (.shape .polygon a))
  | ⟨.bezier, [.arguments a]⟩ => some (.command (.shape .bezier a))
  | ⟨.dot, [.arguments a]⟩ => some (.command (.shape .dot a))
  | ⟨.dots, [.arguments a]⟩ => some (.command (.shape .dots a))
  | ⟨.grid, [.arguments a]⟩ => some (.command (.shape .grid a))
  | ⟨.axes, [.arguments a]⟩ => some (.command (.shape .axes a))
  | ⟨.plot, [.arguments a, .text function]⟩ => some (.command (.shape (.plot function) a))
  | ⟨.curve, [.arguments a, .curve kind]⟩ => some (.command (.shape (.curve kind) a))
  | ⟨.framedBox, [.text name, .text words]⟩ => some (.command (.framedBox name words))
  | ⟨.defineColor, [.text name, .text model, .text values]⟩ =>
      some (.command (.defineColor name model values))
  | ⟨.newColor, [.newColor kind, .text name, .text values]⟩ =>
      some (.command (.newColor kind name values))
  | ⟨.useColor, [.color color]⟩ => some (.command (.useColor color))
  | ⟨.textColor, [.color color, .text words]⟩ => some (.command (.textColor color words))
  | ⟨.includePicture, [.params params, .text file]⟩ =>
      some (.command (.includePicture params file))
  | ⟨.moveTo, [.point point]⟩ => some (.command (.path (.moveTo point)))
  | ⟨.lineTo, [.points points, .flag relative]⟩ =>
      some (.command (.path (.lineTo relative points)))
  | ⟨.curveTo, [.points [first, second, last], .flag relative]⟩ =>
      some (.command (.path (.curveTo relative first second last)))
  | ⟨.close, []⟩ => some (.command (.path .close))
  | ⟨.text, [.text word]⟩ => some (.command (.text word))
  | _ => none

theorem event?_visit (e : Event) : e.visit.event? = some e := by
  cases e with
  | enter head => cases head <;> rfl
  | exit kind => rfl
  | command c =>
      cases c with
      | shape command a => cases command <;> rfl
      | path command => cases command <;> rfl
      | _ => rfl

theorem visit_of_event? {v : Visit} {e : Event} (h : v.event? = some e) : e.visit = v := by
  unfold event? at h
  split at h <;> cases h <;> rfl

theorem event?_eq_some_iff {v : Visit} {e : Event} : v.event? = some e ↔ e.visit = v :=
  ⟨visit_of_event?, fun h => h ▸ event?_visit e⟩

theorem mapM_event?_eq_some_iff {vs : List Visit} {es : List Event} :
    vs.mapM event? = some es ↔ es.map Event.visit = vs := by
  induction vs generalizing es with
  | nil => simp [eq_comm]
  | cons v vs ih =>
      rw [List.mapM_cons]
      simp only [bind, Option.bind_eq_some_iff, ih, event?_eq_some_iff, pure, Option.some.injEq]
      constructor
      · rintro ⟨e, rfl, es, rfl, rfl⟩
        rfl
      · intro h
        obtain ⟨e, es, rfl, he, hes⟩ := List.map_eq_cons_iff.mp h
        exact ⟨e, he, es, hes, rfl⟩

/-- What is visited between the two ends of a document. -/
def inside? : List Visit → Option (List Visit)
  | [] => none
  | v :: vs => if v = first ∧ vs.getLast? = some last then some vs.dropLast else none

theorem inside?_eq_some_iff {visits vs : List Visit} :
    inside? visits = some vs ↔ first :: (vs ++ [last]) = visits := by
  cases visits with
  | nil => simp [inside?]
  | cons v rest =>
      simp only [inside?, Option.ite_none_right_eq_some, Option.some.injEq, List.cons.injEq]
      constructor
      · rintro ⟨⟨rfl, hlast⟩, rfl⟩
        obtain ⟨vs, rfl⟩ := List.getLast?_eq_some_iff.mp hlast
        simp
      · rintro ⟨rfl, rfl⟩
        simp

end Visit

/-! ## Brackets -/

namespace Visit

/-- The enclosures that are open after a visit, the innermost first; an end must
belong to the innermost one, and has no data. -/
def nest? (opened : List Enclosure) (v : Visit) : Option (List Enclosure) :=
  match v.name with
  | .begins e => some (e :: opened)
  | .ends e => if v.data = [] ∧ opened.head? = some e then some opened.tail else none
  | _ => some opened

/-- How many enclosures of a kind have begun. -/
def begun (e : Enclosure) (vs : List Visit) : Nat := vs.countP fun v => v.name = .begins e

/-- How many enclosures of a kind have ended. -/
def ended (e : Enclosure) (vs : List Visit) : Nat := vs.countP fun v => v.name = .ends e

/-- Every end is that of the innermost enclosure, and none is left open. -/
def Nested (vs : List Visit) : Prop := vs.foldlM nest? [] = some []

/-- At no time have more enclosures of a kind ended than begun, and in the end as
many. -/
def Balanced (e : Enclosure) (vs : List Visit) : Prop :=
  (∀ n, ended e (vs.take n) ≤ begun e (vs.take n)) ∧ ended e vs = begun e vs

theorem begun_cons (e : Enclosure) (v : Visit) (vs : List Visit) :
    begun e (v :: vs) = begun e vs + if v.name = .begins e then 1 else 0 := by
  simp [begun, List.countP_cons]

theorem ended_cons (e : Enclosure) (v : Visit) (vs : List Visit) :
    ended e (v :: vs) = ended e vs + if v.name = .ends e then 1 else 0 := by
  simp [ended, List.countP_cons]

/-- A visit opens as many enclosures of a kind as it begins, less those that it ends. -/
theorem count_nest? {e : Enclosure} {v : Visit} {opened opened' : List Enclosure}
    (h : nest? opened v = some opened') :
    (if v.name = .begins e then 1 else 0) + opened.count e
      = (if v.name = .ends e then 1 else 0) + opened'.count e := by
  unfold nest? at h
  split at h
  · next e' hname =>
      obtain rfl := Option.some.inj h
      simp [hname, List.count_cons, Nat.add_comm]
  · next e' hname =>
      obtain ⟨⟨-, hhead⟩, htail⟩ := Option.ite_none_right_eq_some.mp h
      obtain ⟨outer, rfl⟩ := List.head?_eq_some_iff.mp hhead
      obtain rfl := Option.some.inj htail
      simp [hname, List.count_cons, Nat.add_comm]
  · next hbegins hends =>
      obtain rfl := Option.some.inj h
      rw [if_neg (hbegins e ·), if_neg (hends e ·)]

/-- What has begun is open or has ended. -/
theorem begun_add_count {e : Enclosure} {vs : List Visit} {opened opened' : List Enclosure}
    (h : vs.foldlM nest? opened = some opened') :
    begun e vs + opened.count e = ended e vs + opened'.count e := by
  induction vs generalizing opened with
  | nil =>
      obtain rfl := Option.some.inj h
      rfl
  | cons v vs ih =>
      rw [List.foldlM_cons] at h
      obtain ⟨between, hv, hvs⟩ := Option.bind_eq_some_iff.mp h
      have hone := count_nest? (e := e) hv
      have hrest := ih hvs
      rw [begun_cons, ended_cons]
      omega

/-- Enclosures that are nested are balanced, each kind for itself. -/
theorem Nested.balanced {vs : List Visit} (h : Nested vs) (e : Enclosure) : Balanced e vs := by
  refine ⟨fun n => ?_, ?_⟩
  · have hsplit : (vs.take n ++ vs.drop n).foldlM nest? [] = some [] := by
      rwa [List.take_append_drop]
    rw [List.foldlM_append] at hsplit
    obtain ⟨opened, htake, -⟩ := Option.bind_eq_some_iff.mp hsplit
    have hcount := begun_add_count (e := e) htake
    rw [List.count_nil] at hcount
    omega
  · exact (begun_add_count h).symm

end Visit

theorem ScopeHead.nest?_visit (head : ScopeHead) (opened : List Enclosure) :
    Visit.nest? opened head.visit = some (.scope head.kind :: opened) := by
  cases head <;> rfl

theorem Command.nest?_visit (c : Command) (opened : List Enclosure) :
    Visit.nest? opened c.visit = some opened := by
  cases c with
  | shape command a => cases command <;> rfl
  | path command => cases command <;> rfl
  | _ => rfl

mutual

/-- After an item the same enclosures are open as before. -/
theorem Item.foldlM_nest? :
    ∀ (item : Item) (opened : List Enclosure),
      (item.events.map Event.visit).foldlM Visit.nest? opened = some opened
  | .command c, opened => by
      rw [Item.events, List.map_cons, List.map_nil, List.foldlM_cons]
      exact congrArg (· >>= _) (c.nest?_visit opened)
  | .scope head items, opened => by
      have hinside := Item.foldlM_nest?_all items (.scope head.kind :: opened)
      rw [Item.events, List.map_cons, List.map_append, List.foldlM_cons, Event.visit,
        head.nest?_visit, Option.bind_eq_bind, Option.bind_some, List.foldlM_append, hinside]
      simp [Event.visit, Visit.nest?]

theorem Item.foldlM_nest?_all :
    ∀ (items : List Item) (opened : List Enclosure),
      ((Item.eventsOfAll items).map Event.visit).foldlM Visit.nest? opened = some opened
  | [], _ => rfl
  | item :: items, opened => by
      rw [Item.eventsOfAll, List.map_append, List.foldlM_append, Item.foldlM_nest? item,
        Option.bind_eq_bind, Option.bind_some, Item.foldlM_nest?_all items]

end

theorem nested_walk (items : List Item) : Visit.Nested (walk items) := by
  have hinside := Item.foldlM_nest?_all items [.document]
  have hfirst : Visit.nest? [] .first = some [.document] := rfl
  rw [Visit.Nested, walk, List.foldlM_cons, hfirst, Option.bind_eq_bind, Option.bind_some,
    List.foldlM_append, hinside]
  rfl

/-! ## Putting a document together again -/

/-- A part of a document that has been put together: the items of the innermost
open scope, and the heads of the open scopes with the items before each of them.
The newest item comes first, and the innermost scope. -/
structure Builder where
  done : List Item
  opened : List (ScopeHead × List Item)

namespace Builder

/-- Nothing yet. -/
def start : Builder := ⟨[], []⟩

/-- One event more; the end of a scope must be one of its kind. -/
def step? (b : Builder) : Event → Option Builder
  | .enter head => some ⟨[], (head, b.done) :: b.opened⟩
  | .command c => some { b with done := .command c :: b.done }
  | .exit kind =>
      match b.opened with
      | [] => none
      | (head, before) :: outer =>
          if head.kind = kind then some ⟨.scope head b.done.reverse :: before, outer⟩ else none

/-- The items, if no scope is left open. -/
def items? (b : Builder) : Option (List Item) :=
  if b.opened.isEmpty then some b.done.reverse else none

/-- The events of a part of a document. -/
def eventsOf (done : List Item) : List (ScopeHead × List Item) → List Event
  | [] => Item.eventsOfAll done.reverse
  | (head, before) :: outer =>
      eventsOf before outer ++ .enter head :: Item.eventsOfAll done.reverse

/-- The events that a part of a document was put together from. -/
def events (b : Builder) : List Event := eventsOf b.done b.opened

theorem eventsOf_cons (item : Item) (done : List Item) (opened : List (ScopeHead × List Item)) :
    eventsOf (item :: done) opened = eventsOf done opened ++ item.events := by
  cases opened <;> simp [eventsOf, Item.eventsOfAll_append, Item.eventsOfAll]

/-- A step adds its event. -/
theorem events_step? {b b' : Builder} {e : Event} (h : b.step? e = some b') :
    b'.events = b.events ++ [e] := by
  cases e with
  | enter head =>
      obtain rfl := Option.some.inj h
      rfl
  | command c =>
      obtain rfl := Option.some.inj h
      exact eventsOf_cons _ _ _
  | exit kind =>
      obtain ⟨done, - | ⟨⟨head, before⟩, outer⟩⟩ := b
      · cases h
      · obtain ⟨hkind, hb⟩ := Option.ite_none_right_eq_some.mp h
        subst hkind
        obtain rfl := Option.some.inj hb
        rw [events, eventsOf_cons, events, eventsOf, Item.events]
        simp

theorem events_foldlM {es : List Event} {b b' : Builder} (h : es.foldlM step? b = some b') :
    b'.events = b.events ++ es := by
  induction es generalizing b with
  | nil =>
      obtain rfl := Option.some.inj h
      rw [List.append_nil]
  | cons e es ih =>
      rw [List.foldlM_cons] at h
      obtain ⟨between, he, hes⟩ := Option.bind_eq_some_iff.mp h
      rw [ih hes, events_step? he, List.append_assoc]
      rfl

mutual

/-- The events of an item put it behind what is there. -/
theorem foldlM_events :
    ∀ (item : Item) (b : Builder),
      item.events.foldlM step? b = some { b with done := item :: b.done }
  | .command c, b => rfl
  | .scope head items, b => by
      rw [Item.events, List.foldlM_cons, step?, Option.bind_eq_bind, Option.bind_some,
        List.foldlM_append, foldlM_eventsOfAll items]
      simp [step?]

theorem foldlM_eventsOfAll :
    ∀ (items : List Item) (b : Builder),
      (Item.eventsOfAll items).foldlM step? b = some { b with done := items.reverse ++ b.done }
  | [], b => rfl
  | item :: items, b => by
      rw [Item.eventsOfAll, List.foldlM_append, foldlM_events item, Option.bind_eq_bind,
        Option.bind_some, foldlM_eventsOfAll items]
      simp

end

/-- The items that events put together are those with these events. -/
theorem build_eq_some_iff {es : List Event} {items : List Item} :
    (es.foldlM step? start >>= items?) = some items ↔ Item.eventsOfAll items = es := by
  constructor
  · intro h
    obtain ⟨⟨done, opened⟩, hrun, hitems⟩ := Option.bind_eq_some_iff.mp h
    obtain ⟨hopened, hdone⟩ := Option.ite_none_right_eq_some.mp hitems
    obtain rfl : opened = [] := List.isEmpty_iff.mp hopened
    obtain rfl := Option.some.inj hdone
    simpa [events, eventsOf, start, Item.eventsOfAll] using events_foldlM hrun
  · rintro rfl
    rw [foldlM_eventsOfAll]
    simp [items?, start]

end Builder

/-- The document that was walked through. -/
def rebuild? (visits : List Visit) : Option (List Item) := do
  let vs ← Visit.inside? visits
  let es ← vs.mapM Visit.event?
  es.foldlM Builder.step? .start >>= Builder.items?

theorem rebuild?_eq_some_iff {visits : List Visit} {items : List Item} :
    rebuild? visits = some items ↔ walk items = visits := by
  constructor
  · intro h
    obtain ⟨vs, hvs, h⟩ := Option.bind_eq_some_iff.mp h
    obtain ⟨es, hes, h⟩ := Option.bind_eq_some_iff.mp h
    rw [walk, Builder.build_eq_some_iff.mp h, Visit.mapM_event?_eq_some_iff.mp hes,
      Visit.inside?_eq_some_iff.mp hvs]
  · intro h
    rw [rebuild?, Visit.inside?_eq_some_iff.mpr h, Option.bind_eq_bind, Option.bind_some,
      Visit.mapM_event?_eq_some_iff.mpr rfl, Option.bind_eq_bind, Option.bind_some]
    exact Builder.build_eq_some_iff.mpr rfl

/-- A walk is well nested, and with it balanced in each kind of scope; and the
document can be put together again from it, so that no two documents have the
same walk. -/
theorem walk_well_nested_and_faithful :
    (∀ items, Visit.Nested (walk items) ∧ ∀ e, Visit.Balanced e (walk items)) ∧
      (∀ visits items, rebuild? visits = some items ↔ walk items = visits) ∧
      ∀ items items', walk items = walk items' → items = items' := by
  refine ⟨fun items => ⟨nested_walk items, (nested_walk items).balanced⟩,
    fun _ _ => rebuild?_eq_some_iff, fun items items' h => ?_⟩
  have hrebuild : rebuild? (walk items') = some items := rebuild?_eq_some_iff.mpr h
  exact Option.some.inj (hrebuild.symm.trans (rebuild?_eq_some_iff.mpr rfl))

example : rebuild?
    [.first, ⟨.begins (.scope .block), []⟩, ⟨.lineTo, [.points [.origin], .flag true]⟩,
      ⟨.ends (.scope .block), []⟩, .last]
    = some [.scope .block [.command (.path (.lineTo true [.origin]))]] := rfl

end PictureTree
