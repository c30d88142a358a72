/-
# `Proofs.Context.Settings` — what parameters keep

Parameters are set one after the other, each of them read in the context that the
ones before have left.  So what is said of one setting that can be read,

    of a context         it keeps a property of it
    of two contexts      they stay related, and have the same units

is said of a whole list, whatever stands in it (`setAll_keeps`, `setAll_relates`).
-/
import PictureTree.Context

namespace PictureTree.Context

variable {α : Type} [Scalar α] {palette : Palette α}

theorem trySet_keeps {P : Context α → Prop} {c : Context α} (hc : P c) {p : Param}
    (hput : ∀ s, Setting.read ⟨c.units, palette⟩ p = .ok s → P (c.put s)) :
    P (c.trySet palette p) := by
  unfold trySet set
  cases hread : Setting.read ⟨c.units, palette⟩ p with
  | error e => exact hc
  | ok s => exact hput s hread

/-- What no setting that can be read takes away, no list of parameters does. -/
theorem setAll_keeps {P : Context α → Prop}
    (hput : ∀ c p s, P c → Setting.read ⟨c.units, palette⟩ p = .ok s → P (c.put s))
    {c : Context α} (hc : P c) (ps : List Param) : P (c.setAll palette ps) := by
  induction ps generalizing c with
  | nil => exact hc
  | cons p ps ih => exact ih (trySet_keeps hc fun s => hput c p s hc)

/-- The context with parameters set one after the other, each with a palette of its
own; those that fail change nothing. -/
def setEach (c : Context α) (calls : List (Palette α × Param)) : Context α :=
  calls.foldl (fun c call => c.trySet call.1 call.2) c

theorem setEach_keeps {P : Context α → Prop}
    (hput : ∀ c r p s, P c → Setting.read r p = .ok s → P (c.put s))
    {c : Context α} (hc : P c) (calls : List (Palette α × Param)) : P (c.setEach calls) := by
  induction calls generalizing c with
  | nil => exact hc
  | cons call calls ih => exact ih (trySet_keeps hc fun s => hput c _ call.2 s hc)

/-- Contexts with the same units read the same settings, and stay related if every
setting keeps them so. -/
theorem setAll_relates {R : Context α → Context α → Prop}
    (hunits : ∀ c d, R c d → d.units = c.units)
    (hput : ∀ c d s, R c d → R (c.put s) (d.put s))
    {c d : Context α} (h : R c d) (ps : List Param) :
    R (c.setAll palette ps) (d.setAll palette ps) := by
  induction ps generalizing c d with
  | nil => exact h
  | cons p ps ih =>
      have hnext : R (c.trySet palette p) (d.trySet palette p) := by
        unfold trySet set
        rw [hunits c d h]
        cases Setting.read ⟨c.units, palette⟩ p with
        | error e => exact h
        | ok s => exact hput c d s h
      exact ih hnext

end PictureTree.Context
