/-
# `Proofs.Canvas.Texts` — the texts of an import

The words of a scope are collected while its items are drawn, and become one
figure when it ends.  Here the texts of a document are read off its items
instead, scope by scope:

    ownText?   the words of the items that stand in a scope itself, joined, in
               the colour that was chosen last there or handed down
    texts      the own texts of all scopes inside, nested as the scopes are

`importSource?_texts` says that an import has these texts and no others, and
that nothing stands behind the text of a scope in its group.  Three things could
come in between, and none does: a text is no line and no arc, so it is never
fused; the end of a scope moves its text and changes neither words nor colour;
and no command draws a text (`ShapeCommand.draws_outlines?`).
-/
import PictureTree.Proofs.Canvas.Placement
import PictureTree.Proofs.Context.Settings
import PictureTree.Proofs.Document.Words

namespace PictureTree

/-! ## A part of the members, in their groups -/

namespace Grouping

variable {β γ : Type}

mutual

/-- The images of some members, in the group if there is one. -/
def filterMap (f : β → Option γ) : Grouping β → List (Grouping γ)
  | one b => (f b).toList.map one
  | group gs => [group (filterMapAll f gs)]

/-- The groupings with the images of some members, and without the others. -/
def filterMapAll (f : β → Option γ) : List (Grouping β) → List (Grouping γ)
  | [] => []
  | g :: gs => filterMap f g ++ filterMapAll f gs

end

variable {f : β → Option γ}

theorem filterMapAll_append (gs hs : List (Grouping β)) :
    filterMapAll f (gs ++ hs) = filterMapAll f gs ++ filterMapAll f hs := by
  induction gs with
  | nil => rfl
  | cons g gs ih => simp [filterMapAll, ih]

theorem filterMapAll_map_one (bs : List β) :
    filterMapAll f (bs.map one) = (bs.filterMap f).map one := by
  induction bs with
  | nil => rfl
  | cons b bs ih => cases h : f b <;> simp [filterMapAll, filterMap, ih, h]

theorem filterMapAll_mapAll {δ : Type} (g : δ → β) (gs : List (Grouping δ)) :
    filterMapAll f (mapAll g gs) = filterMapAll (fun d => f (g d)) gs := by
  induction gs using forest_induction with
  | nil => rfl
  | one b gs ih => exact congrArg (_ ++ ·) ih
  | group ms gs ihm ih =>
      show group (filterMapAll f (mapAll g ms)) :: filterMapAll f (mapAll g gs) = _
      rw [ihm, ih]
      rfl

theorem leavesOfAll_filterMapAll (gs : List (Grouping β)) :
    leavesOfAll (filterMapAll f gs) = (leavesOfAll gs).filterMap f := by
  induction gs using forest_induction with
  | nil => rfl
  | one b gs ih =>
      show leavesOfAll ((f b).toList.map one ++ filterMapAll f gs) = _
      rw [leavesOfAll_append, ih, leavesOfAll_map_one]
      cases h : f b <;> simp [h]
  | group ms gs ihm ih =>
      show leavesOfAll (filterMapAll f ms) ++ leavesOfAll (filterMapAll f gs) = _
      rw [ihm, ih, leavesOfAll_cons_group, List.filterMap_append]

theorem groupsOfAll_map_one (bs : List β) : groupsOfAll (bs.map one) = [] := by
  induction bs with
  | nil => rfl
  | cons b bs ih => exact ih

theorem groupsOfAll_mapAll (g : β → γ) (gs : List (Grouping β)) :
    groupsOfAll (mapAll g gs) = (groupsOfAll gs).map (mapAll g) := by
  induction gs using forest_induction with
  | nil => rfl
  | one b gs ih => exact ih
  | group ms gs ihm ih =>
      show mapAll g ms :: (groupsOfAll (mapAll g ms) ++ groupsOfAll (mapAll g gs)) = _
      rw [ihm, ih, groupsOfAll_cons_group, List.map_cons, List.map_append]

end Grouping

/-! ## Texts of items -/

variable {α : Type} [Scalar α]

/-- The text of a figure, if it is one, and its colour. -/
def Figure.text? (f : Figure α) : Option (String × Color α) :=
  match f.outline with
  | .text _ words color => some (words, color)
  | _ => none

/-- What a command adds to the text of its scope: every run of text, and what
boxes and coloured texts hold, if they hold something. -/
def Command.word? : Command → Option String
  | .text word => some word
  | .framedBox _ t | .textColor _ t => if t.isEmpty then none else some t
  | _ => none

/-- The colour that a command chooses for the text of its scope, if there is one. -/
def Command.choice? (palette : Palette α) : Command → Option (Color α)
  | .useColor spec | .textColor spec _ => Scope.color? palette spec
  | _ => none

namespace Item

/-- What an item adds to the text of the scope that it stands in itself. -/
def word? : Item → Option String
  | .command c => c.word?
  | .scope _ _ => none

/-- The colour that an item chooses for the text of the scope that it stands in. -/
def choice? (palette : Palette α) : Item → Option (Color α)
  | .command c => c.choice? palette
  | .scope _ _ => none

/-- The colour that was chosen last, some items later. -/
def lastChoice (o : Options α) :
    List Item → Palette α × Scope α → Option (Color α) → Option (Color α)
  | [], _, chosen => chosen
  | item :: items, h, chosen =>
      lastChoice o items (item.drawIn o h) ((item.choice? h.1).or chosen)

/-- The text of a scope with some items: their words, if there are any, in the
colour chosen last, or else in that of lines when the scope ends. -/
def ownText? (o : Options α) (items : List Item) (start : Palette α × Scope α)
    (chosen : Option (Color α)) : Option (String × Color α) :=
  let words := items.filterMap word?
  if words.isEmpty then none
  else some (" ".intercalate words,
    (lastChoice o items start chosen).getD (drawAllIn o items start).2.context.stroke.color)

mutual

/-- The texts inside an item, nested as its scopes are; the own text of a scope
comes last. -/
def texts (o : Options α) :
    Item → Palette α × Scope α → Option (Color α) → List (Grouping (String × Color α))
  | .scope head items, (p, s), chosen =>
      let start := (p, Scope.begin p s.context head)
      [.group (textsAll o items start chosen
        ++ (ownText? o items start chosen).toList.map .one)]
  | .command _, _, _ => []

/-- The texts inside some items. -/
def textsAll (o : Options α) :
    List Item → Palette α × Scope α → Option (Color α) → List (Grouping (String × Color α))
  | [], _, _ => []
  | item :: items, h, chosen =>
      item.texts o h chosen
        ++ textsAll o items (item.drawIn o h) ((item.choice? h.1).or chosen)

end

end Item

/-- The texts of a document; nothing is handed down to it. -/
def Canvas.texts (o : Options α) (palette : Palette α) (items : List Item) :
    List (Grouping (String × Color α)) :=
  let start := (palette, Scope.ofContext (.initial o.ppc))
  Item.textsAll o items start none ++ (Item.ownText? o items start none).toList.map .one

/-! ## Figures that are texts -/

namespace Figure

omit [Scalar α] in
theorem text?_eq_none {f : Figure α} (h : f.kind ≠ .text) : f.text? = none := by
  unfold text?
  split
  · next hf => exact absurd (congrArg Outline.kind hf) h
  · rfl

theorem text?_translate (f : Figure α) (dx dy : α) : (f.translate dx dy).text? = f.text? := by
  rcases f with ⟨outline, rotation, paint⟩
  cases outline <;> rfl

theorem text?_rotate (f : Figure α) (c : Point α) (angle : α) :
    (f.rotate c angle).text? = f.text? :=
  f.text?_translate _ _

omit [Scalar α] in
theorem text?_asChord (f : Figure α) : f.asChord.text? = f.text? := by
  rcases f with ⟨outline, rotation, paint⟩
  cases outline <;> rfl

end Figure

/-- The end of a scope leaves texts as they are. -/
theorem Exit.text?_move (e : Exit α) (f : Figure α) : (e.move f).text? = f.text? := by
  cases e with
  | keep => rfl
  | place position angle => rw [move, Figure.text?_translate, Figure.text?_rotate]
  | turn center angle => exact f.text?_rotate center angle

/-- What is fused is a line and an arc, and never a text. -/
theorem texts_fuse (tolerance : α) (shapes : List (Shape α)) :
    Grouping.filterMapAll Figure.text? (fuse tolerance shapes)
      = Grouping.filterMapAll Figure.text? shapes := by
  have hchord (s : Shape α) :
      Grouping.filterMap Figure.text? s.asChord = Grouping.filterMap Figure.text? s := by
    cases s with
    | one f => exact congrArg (fun t => t.toList.map Grouping.one) f.text?_asChord
    | group gs => rfl
  fun_induction fuse tolerance shapes with
  | case1 => rfl
  | case2 shape => rfl
  | case3 arc line shapes h ih =>
      obtain ⟨-, g, -, p, q, -, rfl, -, hg, -⟩ := Shape.closes_iff.mp h
      have hkind : g.kind = .polyline := by rw [Figure.kind, hg, Outline.kind]
      have hline : g.text? = none := Figure.text?_eq_none (by rw [hkind]; decide)
      simp only [Grouping.filterMapAll, hchord, ih]
      rw [Grouping.filterMap, hline]
      rfl
  | case4 arc line shapes h ih =>
      rw [Grouping.filterMapAll, ih]
      rfl

/-! ## The words and the colour of a scope -/

namespace Context

/-- Parameters have no say in texts. -/
theorem texts_setAll (c : Context α) (palette : Palette α) (ps : List Param) :
    (c.setAll palette ps).text = c.text ∧ (c.setAll palette ps).chosenColor = c.chosenColor := by
  refine setAll_keeps (P := fun d => d.text = c.text ∧ d.chosenColor = c.chosenColor) ?_
    ⟨rfl, rfl⟩ ps
  intro d p s h _
  cases s <;> exact h

end Context

namespace Scope

/-- A scope begins without words, and with the colour chosen around it. -/
theorem texts_begin (palette : Palette α) (outer : Context α) (head : ScopeHead) :
    (Scope.begin palette outer head).context.text = [] ∧
      (Scope.begin palette outer head).context.chosenColor = outer.chosenColor := by
  cases head with
  | picture starred params | custom starred params | turn params =>
      exact outer.child.texts_setAll palette params
  | block | place => exact ⟨rfl, rfl⟩

omit [Scalar α] in
theorem text_write (s : Scope α) (t : String) : (s.write t).context.text
    = s.context.text ++ (if t.isEmpty then none else some t).toList := by
  unfold write
  split <;> simp [Context.write]

/-- Every command adds its word, if it has one. -/
theorem text_obey (o : Options α) (palette : Palette α) (s : Scope α) {c : Command}
    (hc : c ≠ .text "") :
    (s.obey o palette c).context.text = s.context.text ++ c.word?.toList := by
  cases c with
  | shape | includePicture =>
      rw [obey, emitAll_eq]
      exact (List.append_nil _).symm
  | path | defineColor | newColor => exact (List.append_nil _).symm
  | set params =>
      exact (s.context.texts_setAll palette params).1.trans (List.append_nil _).symm
  | framedBox name t => exact s.text_write t
  | useColor spec =>
      simp only [obey, chooseSpec, Command.word?, Option.toList_none, List.append_nil]
      split <;> rfl
  | textColor spec t =>
      have hchoose : (s.chooseSpec palette spec).context.text = s.context.text := by
        unfold chooseSpec
        split <;> rfl
      rw [obey, text_write, hchoose]
      rfl
  | text word =>
      have hword : word.isEmpty = false := by
        refine Bool.eq_false_iff.mpr fun h => hc ?_
        rw [String.isEmpty_iff.mp h]
      rw [obey, text_write, hword]
      rfl

theorem chosenColor_chooseSpec (palette : Palette α) (s : Scope α) (spec : ColorSpec) :
    (s.chooseSpec palette spec).context.chosenColor
      = (color? palette spec).or s.context.chosenColor := by
  unfold chooseSpec
  split
  · next c hc => rw [hc]; rfl
  · next hc => rw [hc]; rfl

omit [Scalar α] in
theorem chosenColor_write (s : Scope α) (t : String) :
    (s.write t).context.chosenColor = s.context.chosenColor := by
  unfold write
  split <;> rfl

/-- Every command chooses its colour, if it has one. -/
theorem chosenColor_obey (o : Options α) (palette : Palette α) (s : Scope α) (c : Command) :
    (s.obey o palette c).context.chosenColor
      = (c.choice? palette).or s.context.chosenColor := by
  cases c with
  | shape | includePicture =>
      rw [obey, emitAll_eq]
      rfl
  | path | defineColor | newColor => rfl
  | set params => exact (s.context.texts_setAll palette params).2
  | framedBox name t | text t => exact s.chosenColor_write t
  | useColor spec => exact s.chosenColor_chooseSpec palette spec
  | textColor spec t =>
      rw [obey, chosenColor_write]
      exact s.chosenColor_chooseSpec palette spec

end Scope

namespace Item

variable {item : Item} {items : List Item}

theorem text_drawIn (o : Options α) (hw : item.Worded) (h : Palette α × Scope α) :
    (item.drawIn o h).2.context.text = h.2.context.text ++ item.word?.toList := by
  cases item with
  | command c => exact h.2.text_obey o h.1 hw
  | scope head inner => exact (List.append_nil _).symm

theorem chosenColor_drawIn (o : Options α) (item : Item) (h : Palette α × Scope α) :
    (item.drawIn o h).2.context.chosenColor = (item.choice? h.1).or h.2.context.chosenColor := by
  cases item with
  | command c => exact h.2.chosenColor_obey o h.1 c
  | scope head inner => rfl

/-- A scope collects the words of its items. -/
theorem text_drawAllIn (o : Options α) (hw : WordedAll items) (h : Palette α × Scope α) :
    (drawAllIn o items h).2.context.text = h.2.context.text ++ items.filterMap word? := by
  induction items generalizing h with
  | nil => exact (List.append_nil _).symm
  | cons item items ih =>
      rw [drawAllIn, ih hw.2, text_drawIn o hw.1, List.append_assoc]
      cases hword : item.word? <;> simp [hword]

/-- A scope keeps the colour that was chosen last. -/
theorem chosenColor_drawAllIn (o : Options α) (items : List Item) (h : Palette α × Scope α) :
    (drawAllIn o items h).2.context.chosenColor
      = lastChoice o items h h.2.context.chosenColor := by
  induction items generalizing h with
  | nil => rfl
  | cons item items ih => rw [drawAllIn, ih, lastChoice, chosenColor_drawIn]

/-- The figure of a text is the own text of its scope. -/
theorem text?_textFigure? (o : Options α) (hw : WordedAll items) {h : Palette α × Scope α}
    (hnew : h.2.context.text = []) :
    ((drawAllIn o items h).2.textFigure?.toList.filterMap Figure.text?)
      = (ownText? o items h h.2.context.chosenColor).toList := by
  have htext := text_drawAllIn o hw h
  rw [hnew, List.nil_append] at htext
  simp only [Scope.textFigure?, ownText?, htext, Context.textColor, chosenColor_drawAllIn]
  split <;> rfl

end Item

/-! ## The texts of the shapes that are emitted -/

/-- The texts of a group are those of its members, whatever the end of its scope. -/
theorem Exit.texts_apply_group (e : Exit α) (gs : List (Shape α)) :
    Grouping.filterMapAll Figure.text? [e.apply (.group gs)]
      = [.group (Grouping.filterMapAll Figure.text? gs)] := by
  rw [e.apply_eq_map]
  show [Grouping.group (Grouping.filterMapAll Figure.text? (Grouping.mapAll e.move gs))] = _
  simp only [Grouping.filterMapAll_mapAll, e.text?_move]

omit [Scalar α] in
theorem texts_map_one {fs : List (Figure α)} (h : ∀ f ∈ fs, f.kind ≠ .text) :
    Grouping.filterMapAll Figure.text? (fs.map .one) = [] := by
  rw [Grouping.filterMapAll_map_one,
    List.filterMap_eq_nil_iff.mpr fun f hf => Figure.text?_eq_none (h f hf)]
  rfl

/-- The texts that a scope holds are those inside its items and its own. -/
theorem Item.texts_members {o : Options α} {items : List Item} {h : Palette α × Scope α}
    {last : List (Figure α)} (hw : Item.WordedAll items) (hnew : h.2.context.text = [])
    (hlast : ∀ f ∈ last, f.kind ≠ .text)
    (hitems : Grouping.filterMapAll Figure.text? (Item.emitsAll o items h)
      = Item.textsAll o items h h.2.context.chosenColor) :
    Grouping.filterMapAll Figure.text? (Item.members o items h last)
      = Item.textsAll o items h h.2.context.chosenColor
        ++ (Item.ownText? o items h h.2.context.chosenColor).toList.map .one := by
  rw [Item.members, Grouping.filterMapAll_append, texts_fuse, Grouping.filterMapAll_append,
    hitems, texts_map_one hlast, List.append_nil, Grouping.filterMapAll_map_one,
    Item.text?_textFigure? o hw hnew]

mutual

theorem Item.texts_emits (o : Options α) :
    ∀ (item : Item) (h : Palette α × Scope α), item.Worded →
      Grouping.filterMapAll Figure.text? (item.emits o h)
        = item.texts o h h.2.context.chosenColor
  | .command c, (p, s), _ => texts_map_one fun _ hf => Scope.kind_of_mem_figures hf
  | .scope head items, (p, s), hw => by
      obtain ⟨hnew, hcolor⟩ := Scope.texts_begin p s.context head
      rw [Item.emits_scope, Exit.texts_apply_group,
        Item.texts_members hw hnew (fun _ => Scope.kind_ne_text_of_mem_lastFigures)
          (Item.texts_emitsAll o items (p, .begin p s.context head) hw), hcolor, Item.texts]

theorem Item.texts_emitsAll (o : Options α) :
    ∀ (items : List Item) (h : Palette α × Scope α), Item.WordedAll items →
      Grouping.filterMapAll Figure.text? (Item.emitsAll o items h)
        = Item.textsAll o items h h.2.context.chosenColor
  | [], _, _ => rfl
  | item :: items, h, hw => by
      rw [Item.emitsAll, Grouping.filterMapAll_append, Item.texts_emits o item h hw.1,
        Item.texts_emitsAll o items _ hw.2, Item.chosenColor_drawIn, Item.textsAll]

end

/-! ## The place of a text in its group -/

/-- No text but the last member. -/
def TextLast (shapes : List (Shape α)) : Prop := ∀ f, .one f ∈ shapes.dropLast → f.text? = none

theorem TextLast.mapAll_move {shapes : List (Shape α)} (h : TextLast shapes) (e : Exit α) :
    TextLast (Grouping.mapAll e.move shapes) := by
  intro f hf
  rw [Grouping.mapAll_eq_map, ← List.map_dropLast] at hf
  obtain ⟨s, hs, hmoved⟩ := List.mem_map.mp hf
  cases s with
  | group gs => cases hmoved
  | one g =>
      obtain rfl : e.move g = f := Grouping.one.inj hmoved
      rw [e.text?_move]
      exact h g hs

/-- Fusing keeps the groups that it finds. -/
theorem groupsOfAll_fuse (tolerance : α) (shapes : List (Shape α)) :
    Grouping.groupsOfAll (fuse tolerance shapes) = Grouping.groupsOfAll shapes := by
  fun_induction fuse tolerance shapes with
  | case1 => rfl
  | case2 shape => rfl
  | case3 arc line shapes h ih =>
      obtain ⟨f, g, -, -, -, rfl, rfl, -⟩ := Shape.closes_iff.mp h
      exact ih
  | case4 arc line shapes h ih => exact congrArg (arc.groups ++ ·) ih

/-- A figure that is left by fusing has the text of one that was there. -/
theorem exists_of_mem_fuse {tolerance : α} {shapes : List (Shape α)} {f : Figure α}
    (h : .one f ∈ fuse tolerance shapes) : ∃ g, .one g ∈ shapes ∧ f.text? = g.text? := by
  fun_induction fuse tolerance shapes with
  | case1 => cases h
  | case2 shape => exact ⟨f, h, rfl⟩
  | case3 arc line shapes hcloses ih =>
      obtain ⟨a, g, -, -, -, rfl, rfl, -⟩ := Shape.closes_iff.mp hcloses
      rcases List.mem_cons.mp h with hchord | hrest
      · obtain rfl : f = a.asChord := Grouping.one.inj hchord
        exact ⟨a, List.mem_cons_self, a.text?_asChord⟩
      · obtain ⟨g, hg, htext⟩ := ih hrest
        exact ⟨g, List.mem_cons_of_mem _ (List.mem_cons_of_mem _ hg), htext⟩
  | case4 arc line shapes hcloses ih =>
      rcases List.mem_cons.mp h with rfl | hrest
      · exact ⟨f, List.mem_cons_self, rfl⟩
      · obtain ⟨g, hg, htext⟩ := ih hrest
        exact ⟨g, List.mem_cons_of_mem _ hg, htext⟩

/-- The figures that items draw in the scope that they stand in are no texts. -/
theorem Item.text?_of_mem_emitsAll {o : Options α} {items : List Item} {h : Palette α × Scope α}
    {f : Figure α} (hf : .one f ∈ Item.emitsAll o items h) : f.text? = none := by
  induction items generalizing h with
  | nil => cases hf
  | cons item items ih =>
      rw [Item.emitsAll, List.mem_append] at hf
      rcases hf with hf | hf
      · cases item with
        | command c =>
            obtain ⟨g, hg, heq⟩ := List.mem_map.mp hf
            obtain rfl := Grouping.one.inj heq
            exact Figure.text?_eq_none (Scope.kind_of_mem_figures hg)
        | scope head inner =>
            rw [Item.emits, List.mem_singleton, Scope.leave_eq_group] at hf
            cases hf
      · exact ih hf

/-- The own text of a scope comes last in it. -/
theorem Item.textLast_members {o : Options α} {items : List Item} {h : Palette α × Scope α}
    {last : List (Figure α)} (hlast : ∀ f ∈ last, f.kind ≠ .text) :
    TextLast (Item.members o items h last) := by
  have hfused : ∀ f, .one f ∈ fuse o.chordTolerance (Item.emitsAll o items h ++ last.map .one) →
      f.text? = none := fun f hf => by
    obtain ⟨g, hg, htext⟩ := exists_of_mem_fuse hf
    rw [htext]
    rcases List.mem_append.mp hg with hg | hg
    · exact Item.text?_of_mem_emitsAll hg
    · obtain ⟨g', hg', heq⟩ := List.mem_map.mp hg
      obtain rfl := Grouping.one.inj heq
      exact Figure.text?_eq_none (hlast g' hg')
  intro f hf
  unfold Item.members at hf
  cases htext : (Item.drawAllIn o items h).2.textFigure? with
  | none => exact hfused f (List.dropLast_subset _ (by simpa [htext] using hf))
  | some t => exact hfused f (by simpa [htext] using hf)

theorem Item.groupsOfAll_members (o : Options α) (items : List Item) (h : Palette α × Scope α)
    (last : List (Figure α)) : Grouping.groupsOfAll (Item.members o items h last)
      = Grouping.groupsOfAll (Item.emitsAll o items h) := by
  rw [Item.members, Grouping.groupsOfAll_append, groupsOfAll_fuse, Grouping.groupsOfAll_append,
    Grouping.groupsOfAll_map_one, Grouping.groupsOfAll_map_one, List.append_nil, List.append_nil]

mutual

theorem Item.textLast_emits (o : Options α) :
    ∀ (item : Item) (h : Palette α × Scope α),
      ∀ members ∈ Grouping.groupsOfAll (item.emits o h), TextLast members
  | .command c, (p, s) => by
      rw [Item.emits, Grouping.groupsOfAll_map_one]
      nofun
  | .scope head items, (p, s) => by
      rw [Item.emits_scope, Exit.apply_eq_map]
      show ∀ members ∈ Grouping.groupsOfAll (Grouping.mapAll _ [.group _]), TextLast members
      rw [Grouping.groupsOfAll_mapAll]
      refine List.forall_mem_map.mpr fun ms hms => TextLast.mapAll_move ?_ _
      rw [Grouping.groupsOfAll_cons_group, Grouping.groupsOfAll_nil, List.append_nil,
        Item.groupsOfAll_members] at hms
      rcases List.mem_cons.mp hms with rfl | hms
      · exact Item.textLast_members fun _ => Scope.kind_ne_text_of_mem_lastFigures
      · exact Item.textLast_emitsAll o items _ ms hms

theorem Item.textLast_emitsAll (o : Options α) :
    ∀ (items : List Item) (h : Palette α × Scope α),
      ∀ members ∈ Grouping.groupsOfAll (Item.emitsAll o items h), TextLast members
  | [], _ => nofun
  | item :: items, h => by
      rw [Item.emitsAll, Grouping.groupsOfAll_append]
      exact List.forall_mem_append.mpr
        ⟨Item.textLast_emits o item h, Item.textLast_emitsAll o items _⟩

end

namespace Canvas

theorem texts_root_drawItems (o : Options α) (palette : Palette α) {items : List Item}
    (hw : Item.WordedAll items) :
    Grouping.filterMapAll Figure.text? (drawItems o palette items).root.shapes
      = texts o palette items := by
  have hnew : (Scope.ofContext (.initial o.ppc)).context.text = [] := rfl
  have hcolor : (Scope.ofContext (.initial o.ppc)).context.chosenColor = none := rfl
  have hmembers := Item.texts_members hw hnew (List.forall_mem_nil _)
    (Item.texts_emitsAll o items (palette, .ofContext (.initial o.ppc)) hw)
  rw [shapes_root_drawItems, hmembers, hcolor, texts]

theorem textLast_root_drawItems (o : Options α) (palette : Palette α) (items : List Item) :
    let drawing := (drawItems o palette items).root.shapes
    ∀ members ∈ drawing :: Grouping.groupsOfAll drawing, TextLast members := by
  intro drawing
  have hdrawing : drawing = Item.members o items (palette, .ofContext (.initial o.ppc)) [] :=
    shapes_root_drawItems o palette items
  rw [hdrawing, Item.groupsOfAll_members]
  exact List.forall_mem_cons.mpr
    ⟨Item.textLast_members (List.forall_mem_nil _), Item.textLast_emitsAll o items _⟩

end Canvas

/-- An import has the texts of its document and no others: one for every scope
that has words of its own, and these words joined, in the colour that was chosen
last in the scope or handed down to it, or else in the colour of its lines.  The
figures of a scope are a group of the drawing, nested as the scopes are, and the
text of the scope comes last in it. -/
theorem importSource?_texts (o : Options α) (palette : Palette α) {source : String}
    {items : List Item} (hitems : Item.ofSource? source = some items) :
    let drawing := (Canvas.drawItems o palette items).root.shapes
    ∃ shapes after, importSource? o palette source = some (shapes, after) ∧
      Grouping.leavesOfAll shapes = Grouping.leavesOfAll drawing ∧
      (Grouping.leavesOfAll shapes).filterMap Figure.text?
        = Grouping.leavesOfAll (Canvas.texts o palette items) ∧
      Grouping.filterMapAll Figure.text? drawing = Canvas.texts o palette items ∧
      ∀ members ∈ drawing :: Grouping.groupsOfAll drawing, TextLast members := by
  intro drawing
  have htexts : Grouping.filterMapAll Figure.text? drawing = Canvas.texts o palette items :=
    Canvas.texts_root_drawItems o palette (Item.worded_of_ofSource? hitems)
  have hleaves : Grouping.leavesOfAll ((Canvas.drawItems o palette items).finish o)
      = Grouping.leavesOfAll drawing := by
    rw [Canvas.finish_drawItems, Grouping.leavesOfAll_flatten, ← Canvas.root_drawItems]
  refine ⟨_, _, by rw [importSource?, hitems]; rfl, hleaves, ?_, htexts,
    Canvas.textLast_root_drawItems o palette items⟩
  rw [hleaves, ← Grouping.leavesOfAll_filterMapAll, htexts]

/-- A word on either side of a scope with two words in a colour of its own: the
words of the document are one text, and it stands behind that of the scope. -/
theorem importSource?_texts_around_scope :
    let source := "a\x7b\\color\x7bred\x7d b c\x7d d"
    let items : List Item :=
      [.command (.text "a"),
        .scope .block [.command (.useColor ⟨none, "red"⟩), .command (.text "b"),
          .command (.text "c")],
        .command (.text "d")]
    Item.ofSource? source = some items ∧
      ∃ shapes after, importSource? (.standard : Options Float) .predefined source
          = some (shapes, after) ∧
        ((Grouping.leavesOfAll shapes).filterMap Figure.text?).map Prod.fst = ["b c", "a d"] := by
  intro source items
  have hitems : Item.ofSource? source = some items := by cbv
  obtain ⟨shapes, after, himport, -, htexts, -⟩ :=
    importSource?_texts (.standard : Options Float) .predefined hitems
  refine ⟨hitems, shapes, after, himport, ?_⟩
  rw [htexts]
  decide

end PictureTree
