/-
# `Proofs.Canvas.Definitions` — the palette is the fold of the definitions

A palette outlives the scopes in which it is used, the documents too: sources
that are imported one after another hand it on.  Here it is said without a
canvas.  `Item.definitions` lists what a document defines, depth first and in
order, and `Palette.record` puts a list of definitions into a palette:

    values that describe a colour    the name has that colour from here on
    values that describe none        nothing

`sources_fold_definitions` says that nothing else reaches the palette, that of
the definitions of a name the latest one counts, and that every event looks its
colours up in what was defined before it, in its own source and in those before.
A source that does not parse has no items, hence no definitions, whatever
stands in front of its error.
-/
import Mathlib
import PictureTree.Proofs.Canvas.Nesting
import PictureTree.Scalar.Double

namespace PictureTree

/-! ## What a document defines -/

/-- A colour as it is defined: its name, and values of a colour model. -/
structure ColorDefinition where
  name : String
  model : String
  values : String
deriving DecidableEq, Repr

/-- The definition that a command makes; the commands for colours of one model
define as the general one does. -/
def Command.definition? : Command → Option ColorDefinition
  | .defineColor name model values => some ⟨name, model, values⟩
  | .newColor kind name values => some ⟨name, kind.model, values⟩
  | _ => none

/-- The definition that an event makes. -/
def Event.definition? : Event → Option ColorDefinition
  | .command c => c.definition?
  | _ => none

mutual

/-- The definitions in an item, depth first. -/
def Item.definitions : Item → List ColorDefinition
  | .scope _ items => Item.definitionsOfAll items
  | .command c => c.definition?.toList

/-- The definitions in some items, in order. -/
def Item.definitionsOfAll : List Item → List ColorDefinition
  | [] => []
  | item :: items => item.definitions ++ Item.definitionsOfAll items

end

/-- The definitions in a source; none if it does not parse. -/
def definitionsOfSource (source : String) : List ColorDefinition :=
  ((Item.ofSource? source).map Item.definitionsOfAll).getD []

mutual

theorem Item.filterMap_definition?_events :
    ∀ item : Item, item.events.filterMap Event.definition? = item.definitions
  | .command c => by
      cases h : c.definition? <;> simp [events, definitions, Event.definition?, h]
  | .scope head items => by
      rw [events, List.filterMap_cons_none rfl, List.filterMap_append,
        Item.filterMap_definition?_eventsOfAll items, definitions]
      exact List.append_nil _

theorem Item.filterMap_definition?_eventsOfAll :
    ∀ items : List Item,
      (Item.eventsOfAll items).filterMap Event.definition? = Item.definitionsOfAll items
  | [] => rfl
  | item :: items => by
      rw [eventsOfAll, List.filterMap_append, Item.filterMap_definition?_events item,
        Item.filterMap_definition?_eventsOfAll items, definitionsOfAll]

end

variable {α : Type} [Scalar α]

/-! ## Definitions in a palette -/

/-- The name and the colour that a definition adds to a palette, if its values
describe a colour. -/
def ColorDefinition.entry? (d : ColorDefinition) : Option (String × Color α) :=
  (Color.ofModel? d.model d.values).toOption.map fun c => (d.name, c)

namespace Palette

/-- The palette with definitions made one after the other. -/
def record (p : Palette α) (ds : List ColorDefinition) : Palette α :=
  ds.foldl (fun p d => p.defineModel d.name d.model d.values) p

theorem record_append (p : Palette α) (ds ds' : List ColorDefinition) :
    p.record (ds ++ ds') = (p.record ds).record ds' := List.foldl_append

theorem learn_eq_record (p : Palette α) (c : Command) :
    p.learn c = p.record c.definition?.toList := by
  cases c <;> rfl

/-- The entry of a definition goes before those of earlier ones. -/
theorem named_defineModel (p : Palette α) (d : ColorDefinition) :
    (p.defineModel d.name d.model d.values).named = d.entry?.toList ++ p.named := by
  unfold defineModel ColorDefinition.entry?
  cases (Color.ofModel? d.model d.values : Except ResolveError (Color α)) <;> rfl

/-- What is recorded are the colours that can be converted, the latest first. -/
theorem named_record (p : Palette α) (ds : List ColorDefinition) :
    (p.record ds).named = (ds.filterMap ColorDefinition.entry?).reverse ++ p.named := by
  induction ds generalizing p with
  | nil => rfl
  | cons d ds ih =>
      have hd : (p.record (d :: ds)).named
          = ((p.defineModel d.name d.model d.values).record ds).named := rfl
      rw [hd, ih, named_defineModel]
      cases h : (d.entry? : Option (String × Color α)) <;> simp [h]

/-- The latest definition of a name counts, and that of the palette before if
none of the definitions is one of this name. -/
theorem lookup?_record (p : Palette α) (ds : List ColorDefinition) (name : String) :
    (p.record ds).lookup? name
      = ((ds.filterMap ColorDefinition.entry?).reverse.lookup name).or (p.lookup? name) := by
  rw [lookup?, named_record, List.lookup_append]
  rfl

/-- The palette after sources that are imported one after another; one that does
not parse leaves it as it is. -/
def afterSources (o : Options α) (p : Palette α) (sources : List String) : Palette α :=
  sources.foldl (fun p source => ((importSource? o p source).map Prod.snd).getD p) p

end Palette

/-! ## Definitions on a canvas -/

namespace Canvas

/-- The end of a scope defines nothing. -/
theorem palette_step_exit (o : Options α) (c : Canvas α) (kind : ScopeKind) :
    (c.step o (.exit kind)).palette = c.palette := by
  rcases c with ⟨p, root, - | ⟨s, - | ⟨around, outer⟩⟩⟩ <;> cases kind <;> rfl

/-- The palette of a canvas is that before, with the definitions that its events
have made. -/
theorem palette_run (o : Options α) (c : Canvas α) (events : List Event) :
    (c.run o events).palette = c.palette.record (events.filterMap Event.definition?) := by
  induction events generalizing c with
  | nil => rfl
  | cons e events ih =>
      have hstep : (c.step o e).palette = c.palette.record e.definition?.toList := by
        cases e with
        | enter head => rfl
        | exit kind => exact palette_step_exit o c kind
        | command k => exact c.palette.learn_eq_record k
      rw [run_cons, ih, hstep, ← Palette.record_append]
      cases h : e.definition? <;> simp [h]

/-- The canvas after an event that looks colours up in a given palette. -/
def stepIn (o : Options α) (q : Palette α) (c : Canvas α) : Event → Canvas α
  | .enter head => c.push (.begin q c.innermost.context head)
  | .exit kind => c.step o (.exit kind)
  | .command k => c.put (q.learn k, c.innermost.obey o q k)

theorem step_eq_stepIn (o : Options α) (c : Canvas α) (e : Event) :
    c.step o e = c.stepIn o c.palette e := by
  cases e with
  | enter head => rfl
  | exit kind => rfl
  | command k => exact step_command o c k

end Canvas

/-! ## Sources one after another -/

namespace Palette

/-- Importing a source records its definitions, if it parses. -/
theorem after_importSource? (o : Options α) (p : Palette α) (source : String) :
    ((importSource? o p source).map Prod.snd).getD p = p.record (definitionsOfSource source) := by
  unfold importSource? definitionsOfSource
  cases Item.ofSource? source with
  | none => rfl
  | some items =>
      show ((Canvas.blank o p).run o (Item.eventsOfAll items)).palette = _
      rw [Canvas.palette_run, Item.filterMap_definition?_eventsOfAll]
      rfl

theorem afterSources_eq_record (o : Options α) (p : Palette α) (sources : List String) :
    p.afterSources o sources = p.record (sources.flatMap definitionsOfSource) := by
  induction sources generalizing p with
  | nil => rfl
  | cons source sources ih =>
      rw [List.flatMap_cons, record_append, ← after_importSource? o, ← ih]
      rfl

/-- The palette after some sources is the one before, with their definitions
recorded in order: those whose values describe no colour are left out, and of a
name the latest one counts.  In the next source that parses, every event looks
its colours up in what the sources before and the events before it define. -/
theorem sources_fold_definitions (o : Options α) (p : Palette α) (sources : List String)
    (n : Nat) :
    let written := (sources.take n).flatMap definitionsOfSource
    let palette := p.afterSources o (sources.take n)
    palette = p.record written ∧
      (∀ name, palette.lookup? name
        = ((written.filterMap ColorDefinition.entry?).reverse.lookup name).or (p.lookup? name)) ∧
      ∀ source ∈ sources[n]?, ∀ items ∈ Item.ofSource? source,
        let after (k : Nat) := (Canvas.blank o palette).run o ((Item.eventsOfAll items).take k)
        let before (k : Nat) := ((Item.eventsOfAll items).take k).filterMap Event.definition?
        importSource? o palette source
            = some ((after (Item.eventsOfAll items).length).finish o,
                p.record (written ++ Item.definitionsOfAll items)) ∧
          ∀ k, ∀ e ∈ (Item.eventsOfAll items)[k]?,
            after (k + 1) = (after k).stepIn o (p.record (written ++ before k)) e := by
  intro written palette
  have hpalette : palette = p.record written := afterSources_eq_record o p _
  refine ⟨hpalette, fun name => ?_, fun source _ items hitems => ?_⟩
  · rw [hpalette, lookup?_record]
  · intro after before
    have hafter : ∀ k, (after k).palette = p.record (written ++ before k) := fun k => by
      rw [record_append, ← hpalette]
      exact Canvas.palette_run o _ _
    refine ⟨?_, fun k e he => ?_⟩
    · have hall : (after (Item.eventsOfAll items).length).palette
          = p.record (written ++ Item.definitionsOfAll items) := by
        rw [hafter, ← Item.filterMap_definition?_eventsOfAll]
        exact congrArg (fun es => p.record (written ++ es.filterMap Event.definition?))
          List.take_length
      rw [importSource?, hitems, ← hall]
      simp only [after, List.take_length]
      rfl
    · have hnext : after (k + 1) = (after k).step o e := by
        simp only [after, List.take_add_one, Option.mem_def.mp he, Option.toList_some,
          Canvas.run_append]
        rfl
      rw [hnext, Canvas.step_eq_stepIn, hafter]

/-- A colour that is defined inside braces, and a dot of this colour in the next
source. -/
theorem sources_fold_definitions_braces_then_dot :
    let sources := ["\x7b\\newgray\x7bsea\x7d\x7b0\x7d\x7d", "\\psdot[linecolor=sea]"]
    let dot : Event := .command (.shape .dot ⟨false, [⟨"linecolor", "sea"⟩], none, [], []⟩)
    let palette : Palette Float := Palette.predefined.afterSources .standard (sources.take 1)
    (sources.take 1).flatMap definitionsOfSource = [⟨"sea", "gray", "0"⟩] ∧
      (∃ items ∈ Item.ofSource? "\\psdot[linecolor=sea]", Item.eventsOfAll items = [dot]) ∧
      (Canvas.blank .standard palette).run .standard [dot]
        = (Canvas.blank .standard palette).stepIn .standard
            (Palette.predefined.record [⟨"sea", "gray", "0"⟩]) dot := by
  intro sources dot palette
  have hwritten : (sources.take 1).flatMap definitionsOfSource = [⟨"sea", "gray", "0"⟩] := by cbv
  have hitems : Item.ofSource? "\\psdot[linecolor=sea]"
      = some [.command (.shape .dot ⟨false, [⟨"linecolor", "sea"⟩], none, [], []⟩)] := by cbv
  refine ⟨hwritten, ⟨_, hitems, rfl⟩, ?_⟩
  have hstep := ((sources_fold_definitions .standard (Palette.predefined : Palette Float) sources
    1).2.2 _ rfl _ hitems).2 0 dot rfl
  rw [hwritten] at hstep
  exact hstep

end Palette

end PictureTree
