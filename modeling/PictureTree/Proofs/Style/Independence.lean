/-
# `Proofs.Style.Independence` — settings of different keys do not meet

A setting writes the fields of its own key, all of them, and nothing that it
writes depends on what was there before.  So

    two keys    the settings may be exchanged
    one key     the later setting counts

An opacity out of range is the exception: it leaves everything as it was, and so
the one before it counts.  `Independent` says this of any kind of setting, and is
proved here of every style family.

What follows for lists of settings follows from these laws alone: the settings
that count are the last ones of their keys (`foldl_lastWorking`), and in which
order the keys come is of no account (`foldl_of_sameByKey`).
-/
import PictureTree.Setting

open scoped PictureTree.Scalar

namespace PictureTree

/-! ## Independent settings -/

section Lists

variable {β σ τ : Type} {key : σ → String} {put : β → σ → β} {works : σ → Bool}

/-- Settings, with a key each, that change something without getting into each
other's way. -/
structure Independent (key : σ → String) (put : β → σ → β) (works : σ → Bool) : Prop where
  /-- Settings of different keys may be exchanged. -/
  comm : ∀ b s t, key s ≠ key t → put (put b s) t = put (put b t) s
  /-- Of two settings of one key the later one counts, if it works. -/
  last : ∀ b s t, key s = key t → works t = true → put (put b s) t = put b t
  /-- A setting that does not work changes nothing. -/
  idle : ∀ b s, works s = false → put b s = b

/-- The settings that work and that no later one of their key replaces. -/
def lastWorking (key : σ → String) (works : σ → Bool) : List σ → List σ
  | [] => []
  | s :: ss =>
      if works s && !(ss.any fun t => key t == key s && works t) then
        s :: lastWorking key works ss
      else lastWorking key works ss

/-- The same settings for each key, in the same order. -/
def SameByKey (key : σ → String) (ss ts : List σ) : Prop :=
  ∀ k, ss.filter (fun s => key s == k) = ts.filter (fun s => key s == k)

theorem map_lastWorking {f : σ → τ} (key' : τ → String) {works' : τ → Bool} {ss : List σ}
    (hkey : ∀ s, key' (f s) = key s) (hworks : ∀ s ∈ ss, works' (f s) = works s) :
    (lastWorking key works ss).map f = lastWorking key' works' (ss.map f) := by
  induction ss with
  | nil => rfl
  | cons s ss ih =>
      obtain ⟨hs, hss⟩ := List.forall_mem_cons.mp hworks
      have hlater : (ss.map f).any (fun t => key' t == key' (f s) && works' t)
          = ss.any (fun t => key t == key s && works t) := by
        rw [List.any_map, Bool.eq_iff_iff, List.any_eq_true, List.any_eq_true]
        refine exists_congr fun t => and_congr_right fun ht => ?_
        simp [hkey, hss t ht]
      rw [List.map_cons, lastWorking, lastWorking, hs, hlater]
      split
      · rw [List.map_cons, ih hss]
      · exact ih hss

theorem mem_of_mem_lastWorking {s : σ} {ss : List σ} (h : s ∈ lastWorking key works ss) :
    s ∈ ss := by
  induction ss with
  | nil => exact h
  | cons t ss ih =>
      rw [lastWorking] at h
      split at h
      · rcases List.mem_cons.mp h with rfl | h
        · exact List.mem_cons_self
        · exact List.mem_cons_of_mem t (ih h)
      · exact List.mem_cons_of_mem t (ih h)

namespace SameByKey

variable {s : σ} {ss ts : List σ}

/-- The first setting of one list is, in the other list, behind settings of other
keys only. -/
theorem exists_split (h : SameByKey key (s :: ss) ts) :
    ∃ before after, ts = before ++ s :: after ∧ (∀ t ∈ before, key t ≠ key s) ∧
      SameByKey key ss (before ++ after) := by
  have hs : ts.filter (fun t => key t == key s) = s :: ss.filter (fun t => key t == key s) := by
    rw [← h (key s), List.filter_cons_of_pos (by simp)]
  obtain ⟨before, after, rfl, hbefore, -, hafter⟩ := List.filter_eq_cons_iff.mp hs
  have hne : ∀ t ∈ before, key t ≠ key s := by simpa using hbefore
  refine ⟨before, after, rfl, hne, fun k => ?_⟩
  by_cases hk : key s = k
  · subst hk
    have hnil : before.filter (fun t => key t == key s) = [] := by simpa using hne
    rw [List.filter_append, hnil, List.nil_append, hafter]
  · have hkeep := h k
    rwa [List.filter_cons_of_neg (by simpa using hk), List.filter_append,
      List.filter_cons_of_neg (by simpa using hk), ← List.filter_append] at hkeep

theorem perm (h : SameByKey key ss ts) : ss.Perm ts := by
  induction ss generalizing ts with
  | nil =>
      have hnil : ts = [] := List.eq_nil_iff_forall_not_mem.mpr fun t ht => by
        have hfilter := h (key t)
        rw [List.filter_nil] at hfilter
        simpa using List.filter_eq_nil_iff.mp hfilter.symm t ht
      rw [hnil]
  | cons s ss ih =>
      obtain ⟨before, after, rfl, -, hrest⟩ := h.exists_split
      exact ((ih hrest).cons s).trans List.perm_middle.symm

end SameByKey

namespace Independent

/-- Settings that all work. -/
theorem ofAll (comm : ∀ b s t, key s ≠ key t → put (put b s) t = put (put b t) s)
    (last : ∀ b s t, key s = key t → put (put b s) t = put b t) :
    Independent key put fun _ => true where
  comm := comm
  last b s t hkey _ := last b s t hkey
  idle _ _ h := nomatch h

variable (h : Independent key put works) {s : σ} {ss ts : List σ}
include h

/-- A setting may wait for settings of other keys. -/
theorem foldl_put (hne : ∀ t ∈ ss, key t ≠ key s) (b : β) :
    ss.foldl put (put b s) = put (ss.foldl put b) s := by
  induction ss generalizing b with
  | nil => rfl
  | cons t ss ih =>
      obtain ⟨ht, hss⟩ := List.forall_mem_cons.mp hne
      rw [List.foldl_cons, h.comm b s t ht.symm, ih hss, List.foldl_cons]

/-- A setting that a later one of its key replaces does not count. -/
theorem foldl_put_of_replaced (hlater : ∃ t ∈ ss, key t = key s ∧ works t = true) (b : β) :
    ss.foldl put (put b s) = ss.foldl put b := by
  induction ss generalizing b with
  | nil => simp at hlater
  | cons t ss ih =>
      rw [List.foldl_cons, List.foldl_cons]
      by_cases hreplaces : key t = key s ∧ works t = true
      · rw [h.last b s t hreplaces.1.symm hreplaces.2]
      · obtain ⟨u, hu, hulater⟩ := hlater
        have hrest : ∃ u ∈ ss, key u = key s ∧ works u = true := by
          rcases List.mem_cons.mp hu with rfl | hu
          · exact absurd hulater hreplaces
          · exact ⟨u, hu, hulater⟩
        by_cases hkey : key t = key s
        · -- of the same key, so it does not work
          have hidle : works t = false := Bool.eq_false_iff.mpr fun ht => hreplaces ⟨hkey, ht⟩
          rw [h.idle _ t hidle, h.idle _ t hidle, ih hrest]
        · rw [h.comm b s t (Ne.symm hkey), ih hrest]

/-- Only the last working settings of their keys count. -/
theorem foldl_lastWorking (ss : List σ) (b : β) :
    (lastWorking key works ss).foldl put b = ss.foldl put b := by
  induction ss generalizing b with
  | nil => rfl
  | cons s ss ih =>
      rw [lastWorking, List.foldl_cons]
      cases hworks : works s with
      | false => simp [ih, h.idle b s hworks]
      | true =>
          cases hlater : ss.any fun t => key t == key s && works t with
          | false => simp [ih]
          | true =>
              have hreplaced : ∃ t ∈ ss, key t = key s ∧ works t = true := by
                simpa using hlater
              simp [ih, h.foldl_put_of_replaced hreplaced]

/-- The order in which the keys come is of no account. -/
theorem foldl_of_sameByKey (hsame : SameByKey key ss ts) (b : β) :
    ts.foldl put b = ss.foldl put b := by
  induction ss generalizing ts b with
  | nil => rw [List.nil_perm.mp hsame.perm]
  | cons s ss ih =>
      obtain ⟨before, after, rfl, hne, hrest⟩ := hsame.exists_split
      rw [List.foldl_append, List.foldl_cons, ← h.foldl_put hne, ← List.foldl_append, ih hrest,
        List.foldl_cons]

end Independent

end Lists

/-! ## The style families -/

variable {α : Type}

theorem Units.independent :
    Independent Setting.key (put (α := α)) fun _ => true :=
  .ofAll
    (fun b s t hkey => by cases s <;> cases t <;> first | rfl | exact absurd rfl hkey)
    (fun b s t hkey => by cases s <;> cases t <;> first | rfl | simp [Setting.key] at hkey)

theorem DoubleLine.independent :
    Independent Setting.key (put (α := α)) fun _ => true :=
  .ofAll
    (fun b s t hkey => by cases s <;> cases t <;> first | rfl | exact absurd rfl hkey)
    (fun b s t hkey => by cases s <;> cases t <;> first | rfl | simp [Setting.key] at hkey)

theorem Shadow.independent :
    Independent Setting.key (put (α := α)) fun _ => true :=
  .ofAll
    (fun b s t hkey => by cases s <;> cases t <;> first | rfl | exact absurd rfl hkey)
    (fun b s t hkey => by cases s <;> cases t <;> first | rfl | simp [Setting.key] at hkey)

theorem Arrows.independent :
    Independent Setting.key (put (α := α)) fun _ => true :=
  .ofAll
    (fun b s t hkey => by cases s <;> cases t <;> first | rfl | exact absurd rfl hkey)
    (fun b s t hkey => by cases s <;> cases t <;> first | rfl | simp [Setting.key] at hkey)

theorem Dots.independent :
    Independent Setting.key (put (α := α)) fun _ => true :=
  .ofAll
    (fun b s t hkey => by cases s <;> cases t <;> first | rfl | exact absurd rfl hkey)
    (fun b s t hkey => by cases s <;> cases t <;> first | rfl | simp [Setting.key] at hkey)

theorem GridStyle.independent :
    Independent Setting.key (put (α := α)) fun _ => true :=
  .ofAll
    (fun b s t hkey => by cases s <;> cases t <;> first | rfl | exact absurd rfl hkey)
    (fun b s t hkey => by cases s <;> cases t <;> first | rfl | simp [Setting.key] at hkey)

theorem AxesStyle.independent :
    Independent Setting.key (put (α := α)) fun _ => true :=
  .ofAll
    (fun b s t hkey => by cases s <;> cases t <;> first | rfl | exact absurd rfl hkey)
    (fun b s t hkey => by cases s <;> cases t <;> first | rfl | simp [Setting.key] at hkey)

theorem Plotting.independent :
    Independent Setting.key put fun _ => true :=
  .ofAll
    (fun b s t hkey => by cases s <;> cases t <;> first | rfl | exact absurd rfl hkey)
    (fun b s t hkey => by cases s <;> cases t <;> first | rfl | simp [Setting.key] at hkey)

/-! ## Styles with an opacity -/

variable [Scalar α]

namespace Stroke

/-- Everything counts, opacities out of range aside. -/
def Setting.inRange : Setting α → Bool
  | .opacity o => Scalar.inUnit o
  | _ => true

theorem put_opacity (s : Stroke α) (o : α) :
    s.put (.opacity o) = { s with opacity := if Scalar.inUnit o then o else s.opacity } := by
  simp only [put]
  split <;> rfl

theorem independent : Independent Setting.key (put (α := α)) Setting.inRange where
  comm b s t hkey := by
    cases s <;> cases t <;> first
      | rfl
      | exact absurd rfl hkey
      | (simp only [put_opacity]; rfl)
  last b s t hkey ht := by
    cases s <;> cases t <;> first
      | rfl
      | (simp [Setting.key] at hkey; done)
      | simp only [put_opacity, if_pos (show Scalar.inUnit _ = true from ht)]
  idle b s hs := by
    cases s with
    | opacity o => exact if_neg (Bool.eq_false_iff.mp hs)
    | _ => cases hs

end Stroke

namespace Filling

/-- Everything counts, opacities out of range aside. -/
def Setting.inRange : Setting α → Bool
  | .opacity o => Scalar.inUnit o
  | _ => true

theorem put_opacity (f : Filling α) (o : α) :
    f.put (.opacity o) = { f with opacity := if Scalar.inUnit o then o else f.opacity } := by
  simp only [put]
  split <;> rfl

theorem independent : Independent Setting.key (put (α := α)) Setting.inRange where
  comm b s t hkey := by
    cases s <;> cases t <;> first
      | rfl
      | exact absurd rfl hkey
      | (simp only [put_opacity]; rfl)
  last b s t hkey ht := by
    cases s <;> cases t <;> first
      | rfl
      | (simp [Setting.key] at hkey; done)
      | simp only [put_opacity, if_pos (show Scalar.inUnit _ = true from ht)]
  idle b s hs := by
    cases s with
    | opacity o => exact if_neg (Bool.eq_false_iff.mp hs)
    | _ => cases hs

end Filling

end PictureTree
