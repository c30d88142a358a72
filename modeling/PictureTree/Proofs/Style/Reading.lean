/-
# `Proofs.Style.Reading` — what a parameter is read as

`Setting.read` asks the style families one after the other, and each of them has
a reader that goes by the key.  So what holds of all that the readers may yield
holds of the setting that is read (`Setting.of_read`), and `Yields` says it of one
reader.

The first thing said this way is that a setting belongs to the key that it is
read under (`Setting.key_of_read`).
-/
import PictureTree.Setting

namespace PictureTree

/-! ## Readers -/

section Readers

variable {β σ : Type} {P : σ → Prop}

/-- What is read, if anything is, has a property. -/
def Yields (P : σ → Prop) (read? : Option (Except ResolveError σ)) : Prop :=
  ∀ t, read? = some (.ok t) → P t

theorem yields_none : Yields P none := nofun

theorem yields_map {e : Except ResolveError β} {f : β → σ} (h : ∀ b, e = .ok b → P (f b)) :
    Yields P (some (e.map f)) := by
  intro t ht
  cases e with
  | error _ => cases ht
  | ok b =>
      obtain rfl : f b = t := Except.ok.inj (Option.some.inj ht)
      exact h b rfl

/-- What some families yield is what the first of them or the others yield. -/
theorem Yields.within_orElse {α : Type} {Q : Setting α → Prop} {wrap : σ → Setting α}
    {read? : Option (Except ResolveError σ)} {rest : Option (Except ResolveError (Setting α))}
    (first : Yields (fun t => Q (wrap t)) read?) (others : Yields Q rest) :
    Yields Q (Setting.within wrap read? <|> rest) := by
  intro s hs
  cases read? with
  | none => exact others s hs
  | some e =>
      cases e with
      | error _ => cases hs
      | ok t =>
          obtain rfl : wrap t = s := Except.ok.inj (Option.some.inj hs)
          exact first t rfl

end Readers

namespace Setting

variable {α : Type} [Scalar α] {r : Reading α} {p : Param}

/-- What the first family with a reader answers, or the reader of a setting that stands
alone, is what is read. -/
theorem read_of_found {answer : Except ResolveError (Setting α)}
    (h : (within .scale (Units.Setting.read? p) <|>
      within .stroke (Stroke.Setting.read? r p) <|>
      within .filling (Filling.Setting.read? r p) <|>
      within .double (DoubleLine.Setting.read? r p) <|>
      within .shadow (Shadow.Setting.read? r p) <|>
      within .arrows (Arrows.Setting.read? r p) <|>
      within .dots (Dots.Setting.read? r p) <|>
      within .grid (GridStyle.Setting.read? r p) <|>
      within .axes (AxesStyle.Setting.read? r p) <|>
      within .plotting (Plotting.Setting.read? p) <|>
      readAlone? p) = some answer) : read r p = answer := by
  unfold read
  rw [h]
  rfl

/-- What holds of all that the families yield for a parameter holds of the setting
that the parameter makes. -/
theorem of_read {Q : Setting α → Prop} {s : Setting α} (h : read r p = .ok s)
    (scale : Yields (fun t => Q (.scale t)) (Units.Setting.read? p))
    (stroke : Yields (fun t => Q (.stroke t)) (Stroke.Setting.read? r p))
    (filling : Yields (fun t => Q (.filling t)) (Filling.Setting.read? r p))
    (double : Yields (fun t => Q (.double t)) (DoubleLine.Setting.read? r p))
    (shadow : Yields (fun t => Q (.shadow t)) (Shadow.Setting.read? r p))
    (arrows : Yields (fun t => Q (.arrows t)) (Arrows.Setting.read? r p))
    (dots : Yields (fun t => Q (.dots t)) (Dots.Setting.read? r p))
    (grid : Yields (fun t => Q (.grid t)) (GridStyle.Setting.read? r p))
    (axes : Yields (fun t => Q (.axes t)) (AxesStyle.Setting.read? r p))
    (plotting : Yields (fun t => Q (.plotting t)) (Plotting.Setting.read? p))
    (alone : Yields Q (readAlone? p)) : Q s := by
  unfold read at h
  -- otherwise the key is unknown
  replace h := (Option.getD_eq_iff.mp h).resolve_right fun h => by cases h.2
  refine Yields.within_orElse scale ?_ s h
  refine .within_orElse stroke <| .within_orElse filling <| .within_orElse double <|
    .within_orElse shadow <| .within_orElse arrows <| .within_orElse dots <|
    .within_orElse grid <| .within_orElse axes <| .within_orElse plotting alone

/-! ## The key of what is read -/

theorem yields_key_scale : Yields (fun t => t.key = p.key) (Units.Setting.read? (α := α) p) := by
  unfold Units.Setting.read?
  split <;> first
    | exact yields_none
    | exact yields_map fun _ _ => Eq.symm ‹_›

theorem yields_key_stroke : Yields (fun t => t.key = p.key) (Stroke.Setting.read? r p) := by
  unfold Stroke.Setting.read?
  split <;> first
    | exact yields_none
    | exact yields_map fun _ _ => Eq.symm ‹_›

theorem yields_key_filling : Yields (fun t => t.key = p.key) (Filling.Setting.read? r p) := by
  unfold Filling.Setting.read?
  split <;> first
    | exact yields_none
    | exact yields_map fun _ _ => Eq.symm ‹_›

theorem yields_key_double : Yields (fun t => t.key = p.key) (DoubleLine.Setting.read? r p) := by
  unfold DoubleLine.Setting.read?
  split <;> first
    | exact yields_none
    | exact yields_map fun _ _ => Eq.symm ‹_›

theorem yields_key_shadow : Yields (fun t => t.key = p.key) (Shadow.Setting.read? r p) := by
  unfold Shadow.Setting.read?
  split <;> first
    | exact yields_none
    | exact yields_map fun _ _ => Eq.symm ‹_›

theorem yields_key_arrows : Yields (fun t => t.key = p.key) (Arrows.Setting.read? r p) := by
  unfold Arrows.Setting.read?
  split <;> first
    | exact yields_none
    | exact yields_map fun _ _ => Eq.symm ‹_›

theorem yields_key_dots : Yields (fun t => t.key = p.key) (Dots.Setting.read? r p) := by
  unfold Dots.Setting.read?
  split <;> first
    | exact yields_none
    | exact yields_map fun _ _ => Eq.symm ‹_›

theorem yields_key_grid : Yields (fun t => t.key = p.key) (GridStyle.Setting.read? r p) := by
  unfold GridStyle.Setting.read?
  split <;> first
    | exact yields_none
    | exact yields_map fun _ _ => Eq.symm ‹_›

theorem yields_key_axes : Yields (fun t => t.key = p.key) (AxesStyle.Setting.read? r p) := by
  unfold AxesStyle.Setting.read?
  split <;> first
    | exact yields_none
    | exact yields_map fun _ _ => Eq.symm ‹_›

theorem yields_key_plotting : Yields (fun t => t.key = p.key) (Plotting.Setting.read? p) := by
  unfold Plotting.Setting.read?
  split <;> first
    | exact yields_none
    | exact yields_map fun _ _ => Eq.symm ‹_›

theorem yields_key_alone : Yields (fun s : Setting α => s.key = p.key) (readAlone? p) := by
  unfold readAlone?
  split <;> first
    | exact yields_none
    | exact yields_map fun _ _ => Eq.symm ‹_›

/-- A setting is one of the key that it is read under. -/
theorem key_of_read {s : Setting α} (h : read r p = .ok s) : s.key = p.key :=
  of_read h yields_key_scale yields_key_stroke yields_key_filling yields_key_double
    yields_key_shadow yields_key_arrows yields_key_dots yields_key_grid yields_key_axes
    yields_key_plotting yields_key_alone

end Setting

end PictureTree
