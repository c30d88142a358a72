/-
# `Proofs.Canvas.DefinedColors` — what a defined colour is good for

A definition enters a name into the palette.  `Canvas.Means` says what a document
may expect of that: the name stands for its colour wherever a colour is named,
which is in the settings that have a colour and in the commands that choose one
for text.

    definition  --lookup?_record_of_kept-->  palette  --means_of_lookup?-->  uses

The first step holds of all names that can be defined, through any events and any
further sources, until a definition of the same name succeeds.  The second one
fails for the names with a `!`, which the grammar lets a document define though no
use of a name looks them up: `defined_color_means` has both sides.
-/
import PictureTree.Proofs.Canvas.Definitions
import PictureTree.Proofs.Color.Gamut
import PictureTree.Proofs.Color.Names
import PictureTree.Proofs.Scalar.Exact

namespace PictureTree

variable {α : Type} [Scalar α]

/-! ## Settings of colours -/

/-- The colour of a setting, if it has one. -/
def Setting.color? : Setting α → Option (Color α)
  | .stroke (.color c) | .filling (.color c) | .filling (.gradStart c) | .filling (.gradStop c)
  | .filling (.hatchColor c) | .double (.color c) | .shadow (.color c) | .grid (.color c)
  | .grid (.labelColor c) | .grid (.subgridColor c) => some c
  | _ => none

/-- A setting that has a colour is what its key makes of a name for the colour. -/
theorem Setting.read_of_color? {r : Reading α} {name : String} {s : Setting α} {color : Color α}
    (hs : s.color? = some color) (hname : r.palette.resolve name = .ok color) :
    Setting.read r ⟨s.key, name⟩ = .ok s := by
  unfold Setting.color? at hs
  split at hs
  case h_11 => cases hs
  all_goals
    cases hs
    show ((Reading.color r ⟨_, name⟩).map _).map _ = _
    rw [Reading.color, hname]
    rfl

/-! ## Definitions that leave a name alone -/

namespace Palette

theorem learn_eq_define (p : Palette α) {definition : Command} {name model values : String}
    {color : Color α} (hdefinition : definition.definition? = some ⟨name, model, values⟩)
    (hcolor : Color.ofModel? model values = .ok color) :
    p.learn definition = p.define name color := by
  rw [learn_eq_record, hdefinition]
  show p.defineModel name model values = _
  simp only [defineModel, hcolor]

/-- Definitions of other names, and definitions that fail, leave a name as it is. -/
theorem lookup?_record_of_kept (p : Palette α) {name : String} {ds : List ColorDefinition}
    (h : ∀ d ∈ ds, d.name = name → (d.entry? : Option (String × Color α)) = none) :
    (p.record ds).lookup? name = p.lookup? name := by
  have hnone : (ds.filterMap ColorDefinition.entry? : List (String × Color α)).reverse.lookup name
      = none := by
    refine List.lookup_eq_none_iff.mpr fun entry hentry => ?_
    obtain ⟨d, hd, hdentry⟩ := List.mem_filterMap.mp (List.mem_reverse.mp hentry)
    obtain ⟨c, -, rfl⟩ := Option.map_eq_some_iff.mp hdentry
    rw [bne_iff_ne]
    rintro rfl
    rw [h d hd rfl] at hdentry
    cases hdentry
  rw [lookup?_record, hnone, Option.none_or]

end Palette

namespace Canvas

/-! ## Uses of a name -/

/-- On a canvas a name stands for a colour, whatever blanks are around it: where a
colour is resolved, as the value of the settings that have a colour, and in the
commands that choose the colour of text. -/
structure Means (o : Options α) (k : Canvas α) (name : String) (color : Color α) : Prop where
  resolve : ∀ spelled : String, Text.trimmed spelled.toList = name →
    k.palette.resolve spelled = .ok color
  set : ∀ spelled : String, Text.trimmed spelled.toList = name →
    ∀ s : Setting α, s.color? = some color → ∀ context : Context α,
      context.set k.palette ⟨s.key, spelled⟩ = .ok (context.put s)
  useColor : ∀ spelled : String, Text.trimmed spelled.toList = name →
    k.step o (.command (.useColor ⟨none, spelled⟩)) = k.change fun s => s.choose color
  textColor : ∀ spelled : String, Text.trimmed spelled.toList = name → ∀ text,
    k.step o (.command (.textColor ⟨none, spelled⟩ text))
      = k.change fun s => (s.choose color).write text

theorem chooseSpec_of_resolve {p : Palette α} {name : String} {color : Color α}
    (h : p.resolve name = .ok color) (s : Scope α) :
    s.chooseSpec p ⟨none, name⟩ = s.choose color := by
  simp only [Scope.chooseSpec, Scope.color?, h]
  rfl

/-- All uses of a name resolve it in the palette. -/
theorem means_of_resolve {o : Options α} {k : Canvas α} {name : String} {color : Color α}
    (h : ∀ spelled : String, Text.trimmed spelled.toList = name →
      k.palette.resolve spelled = .ok color) : k.Means o name color where
  resolve := h
  set spelled hspelled s hs context := by
    have hread : Setting.read ⟨context.units, k.palette⟩ ⟨s.key, spelled⟩ = .ok s :=
      Setting.read_of_color? hs (h spelled hspelled)
    rw [Context.set, hread]
    rfl
  useColor spelled hspelled := by
    rw [step_command, change_eq_put, ← chooseSpec_of_resolve (h spelled hspelled)]
    rfl
  textColor spelled hspelled text := by
    rw [step_command, change_eq_put, ← chooseSpec_of_resolve (h spelled hspelled)]
    rfl

/-- A name that can be defined and has no `!` means what the palette has for it. -/
theorem means_of_lookup? {o : Options α} {k : Canvas α} {name : String} {color : Color α}
    (hname : (grammar.whole? .colorName name.toList).isSome = true) (hplain : '!' ∉ name.toList)
    (h : k.palette.lookup? name = some color) : k.Means o name color :=
  means_of_resolve fun _ hspelled =>
    Palette.resolve_of_trimmed (trimmed_of_whole? hname) hplain hspelled h

/-! ## Definitions and their uses -/

/-- The palette after a definition, as the events behind it find it. -/
theorem palette_run_definition (o : Options α) (k : Canvas α) {definition : Command}
    {name model values : String} {color : Color α}
    (hdefinition : definition.definition? = some ⟨name, model, values⟩)
    (hcolor : Color.ofModel? model values = .ok color) (later : List Event) :
    ((k.step o (.command definition)).run o later).palette
      = (k.palette.define name color).record (later.filterMap Event.definition?) := by
  have hstep : (k.step o (.command definition)).palette = k.palette.define name color :=
    k.palette.learn_eq_define hdefinition hcolor
  rw [palette_run, hstep]

/-- A name that the grammar lets a document define, by values that describe a
colour, has this colour in the palette.  If there is no `!` in it, the name means
the colour from right behind the definition on, through all further events and
sources, as long as no definition of the same name succeeds.  If there is one, the
definition does not matter: all names resolve as they would without it. -/
theorem defined_color_means (o : Options α) (k : Canvas α) {definition : Command}
    {name model values : String} {color : Color α}
    (hname : (grammar.whole? .colorName name.toList).isSome = true)
    (hdefinition : definition.definition? = some ⟨name, model, values⟩)
    (hcolor : Color.ofModel? model values = .ok color) :
    let defined := k.step o (.command definition)
    let fails (d : ColorDefinition) := (d.entry? : Option (String × Color α)) = none
    defined.palette.lookup? name = some color ∧
      ('!' ∉ name.toList → ∀ later : List Event,
        (∀ d ∈ later.filterMap Event.definition?, d.name = name → fails d) →
          (defined.run o later).Means o name color ∧
          ∀ (sources : List String) (rest : List Event),
            (∀ d ∈ sources.flatMap definitionsOfSource ++ rest.filterMap Event.definition?,
              d.name = name → fails d) →
            let palette := (defined.run o later).palette.afterSources o sources
            ((blank o palette).run o rest).Means o name color) ∧
      ('!' ∈ name.toList → ∀ (later : List Event) (spelled : String),
        (defined.run o later).palette.resolve spelled
          = (k.run o later).palette.resolve spelled) := by
  intro defined fails
  have hpalette := palette_run_definition o k hdefinition hcolor
  refine ⟨?_, fun hplain later hlater => ?_, fun hmixed later spelled => ?_⟩
  · rw [show defined.palette = _ from hpalette []]
    exact Palette.lookup?_define_self ..
  · have hkept : (defined.run o later).palette.lookup? name = some color := by
      rw [hpalette, Palette.lookup?_record_of_kept _ hlater, Palette.lookup?_define_self]
    refine ⟨means_of_lookup? hname hplain hkept, fun sources rest hrest => ?_⟩
    refine means_of_lookup? hname hplain ?_
    rw [palette_run, blank, Palette.afterSources_eq_record, ← Palette.record_append,
      Palette.lookup?_record_of_kept _ hrest, hkept]
  · refine Palette.resolve_congr (fun other hother => ?_) spelled
    have hne : other ≠ name := fun h => hother (h ▸ hmixed)
    rw [hpalette, palette_run, Palette.lookup?_record, Palette.lookup?_record,
      Palette.lookup?_define_of_ne _ _ hne]

theorem inUnit_ofNat {n : Nat} (h : n ≤ 1) : Scalar.inUnit (Scalar.ofNat n : ℝ) = true := by
  show (decide ((Scalar.ofNat 0 : ℝ) ≤ Scalar.ofNat n) &&
    decide ((Scalar.ofNat n : ℝ) ≤ Scalar.ofNat 1)) = true
  simp [ExactScalar.ofNat_eq, h]

theorem ofModel?_blue : Color.ofModel? "rgb" "0,0,1"
    = .ok (Color.rgb (Scalar.ofNat 0) (Scalar.ofNat 0) (Scalar.ofNat 1) : Color ℝ) := by
  have hzero : Scalar.inUnit (Scalar.ofNat 0 : ℝ) = true := inUnit_ofNat zero_le_one
  have hone : Scalar.inUnit (Scalar.ofNat 1 : ℝ) = true := inUnit_ofNat le_rfl
  have hrgb : Color.Model.ofName? "rgb" = some .rgb := rfl
  have hnumbers : Color.numbers? "0,0,1".toList = some [.ofNat 0, .ofNat 0, .ofNat 1] := by cbv
  have hblue : Color.ofNumbers? .rgb "0,0,1"
      = some (Color.rgb (Scalar.ofNat 0) (Scalar.ofNat 0) (Scalar.ofNat 1) : Color ℝ) := by
    rw [Color.ofNumbers?, hnumbers]
    show (Color.ofComponents? (Scalar.ofNat 0 : ℝ) (Scalar.ofNat 0) (Scalar.ofNat 1)
      (Scalar.ofNat 1)).toOption = _
    rw [Color.ofComponents?_eq hzero hzero hone hone]
    rfl
  simp only [Color.ofModel?, hrgb, hblue]
  rfl

/-- A blue that is defined, then defined again by values that are no numbers, and
used in the next but one source. -/
theorem defined_color_means_sea :
    let blue : Color ℝ := .rgb (Scalar.ofNat 0) (Scalar.ofNat 0) (Scalar.ofNat 1)
    let defined := (blank (.standard : Options ℝ) .predefined).step .standard
      (.command (.defineColor "sea" "rgb" "0,0,1"))
    let later : List Event := [.command (.newColor .gray "sea" "x")]
    let sources := ["\\newgray\x7bsky\x7d\x7b1\x7d"]
    let palette := (defined.run .standard later).palette.afterSources .standard sources
    (grammar.whole? .colorName "sea".toList).isSome = true ∧
      Color.ofModel? "rgb" "0,0,1" = .ok blue ∧
      definitionsOfSource "\\newgray\x7bsky\x7d\x7b1\x7d" = [⟨"sky", "gray", "1"⟩] ∧
      defined.Means .standard "sea" blue ∧
      (defined.run .standard later).Means .standard "sea" blue ∧
      (blank .standard palette).Means .standard "sea" blue := by
  intro blue defined later sources palette
  have hname : (grammar.whole? .colorName "sea".toList).isSome = true := by cbv
  have hcolor : Color.ofModel? "rgb" "0,0,1" = .ok blue := ofModel?_blue
  have hdefinition : (Command.defineColor "sea" "rgb" "0,0,1").definition?
      = some ⟨"sea", "rgb", "0,0,1"⟩ := rfl
  have hsky : definitionsOfSource "\\newgray\x7bsky\x7d\x7b1\x7d" = [⟨"sky", "gray", "1"⟩] := by
    cbv
  have hagain : ColorDefinition.entry? ⟨"sea", "gray", "x"⟩
      = (none : Option (String × Color ℝ)) := rfl
  have hmeans := (defined_color_means .standard (blank (.standard : Options ℝ) .predefined)
    hname hdefinition hcolor).2.1 (by decide)
  have hlater := hmeans later (by
    intro d hd _
    obtain rfl := List.mem_singleton.mp hd
    exact hagain)
  refine ⟨hname, hcolor, hsky, (hmeans [] (List.forall_mem_nil _)).1, hlater.1, hlater.2 sources [] ?_⟩
  intro d hd hsea
  rw [List.flatMap_singleton, hsky] at hd
  obtain rfl := List.mem_singleton.mp hd
  exact absurd hsea (by decide)

/-- A blue that is defined under a name with a mix in it: it is in the palette, but
the name does not resolve, and text in this colour has that of lines. -/
theorem defined_color_means_mix :
    let blue : Color ℝ := .rgb (Scalar.ofNat 0) (Scalar.ofNat 0) (Scalar.ofNat 1)
    let source := "\\definecolor\x7ba!b\x7d\x7brgb\x7d\x7b0,0,1\x7d\\color\x7ba!b\x7dx"
    let k : Canvas ℝ := blank .standard .predefined
    let defined := k.step .standard (.command (.defineColor "a!b" "rgb" "0,0,1"))
    let text : List Event := [.command (.useColor ⟨none, "a!b"⟩), .command (.text "x")]
    (Item.ofSource? source).map Item.eventsOfAll
        = some (.command (.defineColor "a!b" "rgb" "0,0,1") :: text) ∧
      (grammar.whole? .colorName "a!b".toList).isSome = true ∧
      Color.ofModel? "rgb" "0,0,1" = .ok blue ∧ defined.palette.lookup? "a!b" = some blue ∧
      defined.palette.resolve "a!b" = .error (.unknownColor "a") ∧
      (defined.run .standard text).innermost.context.textColor = .black := by
  intro blue source k defined text
  have hcolor : Color.ofModel? "rgb" "0,0,1" = .ok blue := ofModel?_blue
  have hdefinition : (Command.defineColor "a!b" "rgb" "0,0,1").definition?
      = some ⟨"a!b", "rgb", "0,0,1"⟩ := rfl
  have hpalette : defined.palette = k.palette.define "a!b" blue :=
    k.palette.learn_eq_define hdefinition hcolor
  have hresolve : defined.palette.resolve "a!b" = .error (.unknownColor "a") := by
    rw [hpalette]
    rfl
  have huse : defined.step .standard (.command (.useColor ⟨none, "a!b"⟩)) = defined := by
    rw [step_command]
    show defined.put (_, defined.innermost.chooseSpec _ _) = _
    simp only [Scope.chooseSpec, Scope.color?, hresolve]
    exact defined.put_here
  refine ⟨by cbv, by cbv, hcolor, ?_, hresolve, ?_⟩
  · rw [hpalette]
    rfl
  · rw [run_cons, huse]
    rfl

end Canvas

end PictureTree
