/-
# `Proofs.Style.Amounts` — values that come to no finite number

A setting with a number takes one of a few kinds of values (`NumberKind`).  What such
a value comes to is the number as it is written and what that is converted to
(`NumberKind.amounts`).  Either may lie beyond the doubles, and a number may also be
written as infinity or as "not a number".  The readers look at what comes out last,

    a length          value × unit × scale: infinite or no number if the value is
    an angle          degrees are checked, and radians are smaller
    a whole number    it has 32 bits

so that nothing escapes them (`read_of_not_finite`), but for two kinds of values: the
lengths of dashes, which are not checked, and the angle that shapes are turned by,
which is checked in degrees and multiplied by π before it is divided by 180.  `Unseen`
names them.
-/
import PictureTree.Proofs.Numeral.Spelling
import PictureTree.Proofs.Scalar.Doubles
import PictureTree.Proofs.Shape.Resolution
import PictureTree.Proofs.Style.Checks

open scoped PictureTree.Scalar

namespace PictureTree

/-- The kinds of values that come to numbers. -/
inductive NumberKind where
  | unit | length | extent | number | proportion | angle | count | size | dash | rotation
deriving DecidableEq

namespace NumberKind

/-- All kinds. -/
def all : List NumberKind :=
  [.unit, .length, .extent, .number, .proportion, .angle, .count, .size, .dash, .rotation]

/-- The keys with values of a kind. -/
def keys : NumberKind → List String
  | .unit => ["unit", "xunit", "yunit"]
  | .length => ["shadowsize", "ticksize"]
  | .extent => ["linewidth", "dotsep", "hatchsep", "hatchwidth", "doublesep", "gridwidth",
      "gridlabels", "subgridwidth"]
  | .number => ["framearc", "strokeopacity", "opacity", "arrowlength", "arrowinset",
      "bracketlength", "rbracketlength", "dotscale", "Ox", "Oy", "Dx", "Dy", "dx", "dy"]
  | .proportion => ["gradmidpoint"]
  | .angle => ["gradangle", "hatchangle", "shadowangle", "dotangle"]
  | .count => ["griddots", "subgriddiv", "subgriddots", "plotpoints"]
  | .size => ["arrowsize", "tbarsize", "dotsize"]
  | .dash => ["dash"]
  | .rotation => ["gangle"]

/-- The kind of value that a key takes, if it comes to numbers. -/
def ofKey? (key : String) : Option NumberKind := all.find? fun m => m.keys.contains key

variable {α : Type} [Scalar α]

/-- A length as it is written, and what it comes to. -/
def lengthAmounts (u : Units α) (s : List Char) : Option (List α) :=
  (Quantity.ofChars? s).map fun q => [q.value, u.length q]

/-- A number as it is written, and what it is converted to. -/
def numberAmounts (s : List Char) (convert : α → α) : Option (List α) :=
  (Numeral.ofChars? s).map fun n => [Scalar.ofNumeral n, convert (Scalar.ofNumeral n)]

/-- What a length and a number come to; the number may be left out. -/
def sizeAmounts (u : Units α) : List (List Char) → Option (List α)
  | [dim] => lengthAmounts u dim
  | [dim, factor] => do return (← lengthAmounts u dim) ++ (← numberAmounts factor id)
  | _ => none

/-- What two lengths come to. -/
def dashAmounts (u : Units α) : List (List Char) → Option (List α)
  | [black, white] => do return (← lengthAmounts u black) ++ (← lengthAmounts u white)
  | _ => none

/-- All that a value comes to, if it is written as its kind demands. -/
def amounts? (u : Units α) (p : Param) : NumberKind → Option (List α)
  | .unit => lengthAmounts (.ofPpc 1) p.value.toList
  | .length | .extent => lengthAmounts u p.value.toList
  | .number | .proportion | .count => numberAmounts (Reading.text p) id
  | .angle => numberAmounts (Reading.text p) Scalar.toRadians
  | .rotation => numberAmounts (Reading.text p) Scalar.rotation
  | .size => sizeAmounts u (Text.words p.value.toList)
  | .dash => dashAmounts u (Text.words p.value.toList)

/-- All that the value of a setting comes to. -/
def amounts (u : Units α) (p : Param) : List α :=
  ((ofKey? p.key).bind (amounts? u p)).getD []

/-- A value that no check sees behind its conversion: the lengths of dashes, and the
rotation that a finite number of degrees is converted to. -/
def Unseen (α : Type) [Scalar α] (p : Param) : Prop :=
  p.key = "dash" ∨ p.key = "gangle" ∧ (Reading.number? p : Option α).isSome = true

instance (p : Param) : Decidable (Unseen α p) :=
  inferInstanceAs (Decidable (p.key = "dash" ∨ p.key = "gangle" ∧ _ = true))

/-- The reader of a kind answers an error. -/
def Fails (r : Reading α) (p : Param) (e : ResolveError) : NumberKind → Prop
  | .unit => (Reading.unitLength p : Except ResolveError α) = .error e
  | .length => r.length p = .error e
  | .extent => r.extent p = .error e
  | .number | .angle | .rotation => (Reading.number p : Except ResolveError α) = .error e
  | .proportion => (Reading.proportion p : Except ResolveError α) = .error e
  | .count => Reading.count p = .error e
  | .size => r.sizeAndFactor p = .error e
  | .dash => r.twoExtents p = .error e

theorem mem_keys {key : String} {m : NumberKind} (h : ofKey? key = some m) : key ∈ m.keys := by
  have hfound := List.find?_some h
  exact List.contains_iff_mem.mp hfound

/-! ## Readers that fail -/

theorem map_error {β γ : Type} {read : Except ResolveError β} {e : ResolveError}
    (h : read = .error e) (f : β → γ) : read.map f = .error e := by
  subst h
  rfl

section Keys

variable {r : Reading α} {p : Param} {e : ResolveError}

/-- A setting fails if the reader of its kind does. -/
theorem read_of_fails {m : NumberKind} (hkey : p.key ∈ m.keys) (h : m.Fails r p e) :
    Setting.read r p = .error e := by
  obtain ⟨key, value⟩ := p
  have within {β γ : Type} {read : Except ResolveError β} (h : read = .error e) (f : β → γ)
      (wrap : γ → Setting α) : some ((read.map f).map wrap) = some (.error e) :=
    congrArg some (map_error (map_error h f) wrap)
  cases m <;> simp only [keys, List.mem_cons, List.not_mem_nil, or_false] at hkey
  case unit => rcases hkey with rfl | rfl | rfl <;> exact Setting.read_of_found (within h _ _)
  case length => rcases hkey with rfl | rfl <;> exact Setting.read_of_found (within h _ _)
  case extent =>
    rcases hkey with rfl | rfl | rfl | rfl | rfl | rfl | rfl | rfl <;>
      exact Setting.read_of_found (within h _ _)
  case number =>
    rcases hkey with rfl | hkey
    · exact Setting.read_of_found (congrArg some (map_error h _))
    · rcases hkey with rfl | rfl | rfl | rfl | rfl | rfl | rfl | rfl | rfl | rfl | rfl | rfl |
        rfl <;> exact Setting.read_of_found (within h _ _)
  case angle =>
    rcases hkey with rfl | rfl | rfl | rfl <;>
      exact Setting.read_of_found (within (map_error h _) _ _)
  case count =>
    rcases hkey with rfl | rfl | rfl | rfl <;> exact Setting.read_of_found (within h _ _)
  case size => rcases hkey with rfl | rfl | rfl <;> exact Setting.read_of_found (within h _ _)
  case proportion | dash =>
    subst hkey
    exact Setting.read_of_found (within h _ _)
  case rotation =>
    subst hkey
    exact Setting.read_of_found (congrArg some (map_error h _))

end Keys

/-! ## Values that come to no finite number -/

section Doubles

variable {r : Reading Float} {u : Units Float} {p : Param} {s : List Char} {xs : List Float}

theorem isFinite_value {q : Quantity} (h : Scalar.isFinite (u.length q) = true) :
    Scalar.isFinite (q.value : Float) = true := by
  have hcm : Scalar.isFinite (q.centimetres u.unit) = true := Double.isFinite_left_of_mul h
  unfold Quantity.centimetres at hcm
  split at hcm <;> exact Double.isFinite_left_of_mul hcm

theorem exists_pixels (h : lengthAmounts r.units s = some xs) :
    ∃ x, r.pixels? s = some x ∧ (AllFinite xs ↔ Scalar.isFinite x = true) := by
  obtain ⟨q, hq, rfl⟩ := Option.map_eq_some_iff.mp h
  refine ⟨r.units.length q, ?_, ?_⟩
  · rw [Reading.pixels?, hq]
    rfl
  · simp only [allFinite_cons, allFinite_nil, and_true]
    exact ⟨And.right, fun hx => ⟨isFinite_value hx, hx⟩⟩

theorem pixels?_eq_none (h : lengthAmounts r.units s = none) : r.pixels? s = none := by
  rw [Reading.pixels?, Option.map_eq_none_iff.mp h]
  rfl

theorem exists_number {convert : Float → Float} (h : numberAmounts s convert = some xs) :
    ∃ x : Float, (Numeral.ofChars? s).map Scalar.ofNumeral = some x ∧ xs = [x, convert x] := by
  obtain ⟨n, hn, rfl⟩ := Option.map_eq_some_iff.mp h
  exact ⟨Scalar.ofNumeral n, by rw [hn]; rfl, rfl⟩

theorem length?_eq_none (h : lengthAmounts r.units p.value.toList = some xs)
    (hxs : ¬ AllFinite xs) : r.length? p = none := by
  obtain ⟨x, hx, hfinite⟩ := exists_pixels h
  rw [Reading.length?, hx, Option.filter_some, if_neg (mt hfinite.mpr hxs)]

theorem number?_eq_none {convert : Float → Float}
    (h : numberAmounts (Reading.text p) convert = some xs)
    (hconvert : ∀ x, Scalar.isFinite x = true → Scalar.isFinite (convert x) = true)
    (hxs : ¬ AllFinite xs) : (Reading.number? p : Option Float) = none := by
  obtain ⟨x, hx, rfl⟩ := exists_number h
  have hinfinite : ¬ Scalar.isFinite x = true := fun hx => hxs (by simp [hx, hconvert x hx])
  rw [Reading.number?, hx, Option.filter_some, if_neg hinfinite]

theorem count?_eq_none (h : numberAmounts (Reading.text p) id = some xs) (hxs : ¬ AllFinite xs) :
    count? (Reading.text p) = none := by
  cases hcount : count? (Reading.text p) with
  | none => rfl
  | some n =>
      obtain ⟨hnumber, hbound⟩ := Numeral.ofChars?_of_count? hcount
      obtain ⟨x, hx, rfl⟩ := exists_number h
      obtain rfl : Scalar.ofNumeral (.decimal false n 0) = x := by simpa [hnumber] using hx
      have hwhole := Double.isFinite_whole (n := n) (by omega)
      exact absurd (by simp [hwhole]) hxs

theorem sizeAndFactor?_eq_none (h : sizeAmounts r.units (Text.words p.value.toList) = some xs)
    (hxs : ¬ AllFinite xs) : r.sizeAndFactor? p = none := by
  unfold Reading.sizeAndFactor?
  generalize Text.words p.value.toList = words at h
  match words with
  | [dim] =>
      obtain ⟨x, hx, hfinite⟩ := exists_pixels h
      simp only [hx, Option.bind_eq_bind, Option.bind_some, Option.pure_def]
      exact if_neg fun hboth => hxs (hfinite.mpr (Bool.and_eq_true_iff.mp hboth).1)
  | [dim, factor] =>
      obtain ⟨sizes, hsizes, h⟩ := Option.bind_eq_some_iff.mp h
      obtain ⟨factors, hfactors, h⟩ := Option.bind_eq_some_iff.mp h
      obtain rfl : sizes ++ factors = xs := Option.some.inj h
      obtain ⟨x, hx, hfinite⟩ := exists_pixels hsizes
      obtain ⟨y, hy, rfl⟩ := exists_number hfactors
      have hinfinite : ¬ (Scalar.isFinite x && Scalar.isFinite y) = true := fun hboth => by
        obtain ⟨hx, hy⟩ := Bool.and_eq_true_iff.mp hboth
        exact hxs (allFinite_append.mpr ⟨hfinite.mpr hx, by simp [hy]⟩)
      simp only [hx, hy, Option.bind_eq_bind, Option.bind_some, Option.pure_def]
      exact if_neg hinfinite

/-- The lengths of dashes are set as they come, the signs aside. -/
theorem twoExtents_cases (r : Reading Float) (p : Param) :
    (r.twoExtents p = .error (.invalidValue p.key p.value) ∧
      dashAmounts r.units (Text.words p.value.toList) = none) ∨
    ∃ black white xs, r.twoExtents p = .ok (black, white) ∧
      dashAmounts r.units (Text.words p.value.toList) = some xs ∧
      (AllFinite [black, white] ↔ AllFinite xs) := by
  unfold Reading.twoExtents
  generalize Text.words p.value.toList = words
  match words with
  | [black, white] =>
      unfold dashAmounts
      cases hblack : lengthAmounts r.units black with
      | none =>
          simp only [hblack, pixels?_eq_none hblack]
          exact .inl ⟨rfl, rfl⟩
      | some xs =>
          obtain ⟨x, hx, hxfinite⟩ := exists_pixels hblack
          cases hwhite : lengthAmounts r.units white with
          | none =>
              simp only [hblack, hx, hwhite, pixels?_eq_none hwhite]
              exact .inl ⟨rfl, rfl⟩
          | some ys =>
              obtain ⟨y, hy, hyfinite⟩ := exists_pixels hwhite
              simp only [hblack, hx, hwhite, hy]
              refine .inr ⟨Scalar.abs x, Scalar.abs y, xs ++ ys, rfl, rfl, ?_⟩
              simp [hxfinite, hyfinite]
  | [] | [_] | _ :: _ :: _ :: _ => exact .inl ⟨rfl, rfl⟩

/-- The reader of a kind fails on what comes to no finite number, if it checks it. -/
theorem fails_of_not_finite {m : NumberKind} (hkey : p.key ∈ m.keys)
    (h : m.amounts? r.units p = some xs) (hxs : ¬ AllFinite xs) (hseen : ¬ Unseen Float p) :
    m.Fails r p (.invalidValue p.key p.value) := by
  have hnumber (hnone : (Reading.number? p : Option Float) = none) :
      Reading.number p = .error (.invalidValue p.key p.value) :=
    Reading.orInvalid_eq_error.mpr hnone
  cases m with
  | unit =>
      obtain ⟨x, hx, hfinite⟩ := exists_pixels (r := ⟨.ofPpc 1, r.palette⟩) h
      refine Reading.orInvalid_eq_error.mpr ((congrArg (Option.filter _) hx).trans ?_)
      exact if_neg fun hboth => hxs (hfinite.mpr (Bool.and_eq_true_iff.mp hboth).1)
  | length => exact Reading.orInvalid_eq_error.mpr (length?_eq_none h hxs)
  | extent =>
      refine Reading.orInvalid_eq_error.mpr ?_
      rw [length?_eq_none h hxs]
      rfl
  | number => exact Reading.orInvalid_eq_error.mpr (number?_eq_none h (fun _ => id) hxs)
  | proportion =>
      refine Reading.orInvalid_eq_error.mpr ?_
      rw [number?_eq_none h (fun _ => id) hxs]
      rfl
  | angle =>
      exact hnumber (number?_eq_none h (fun _ => Double.isFinite_toRadians) hxs)
  | count => exact Reading.orInvalid_eq_error.mpr (count?_eq_none h hxs)
  | size => exact Reading.orInvalid_eq_error.mpr (sizeAndFactor?_eq_none h hxs)
  | dash => exact absurd (.inl (List.mem_singleton.mp hkey)) hseen
  | rotation =>
      refine hnumber (Option.not_isSome_iff_eq_none.mp fun hsome => hseen (.inr ?_))
      exact ⟨List.mem_singleton.mp hkey, hsome⟩

theorem amounts_dash (hkey : p.key = "dash") :
    amounts u p = (dashAmounts u (Text.words p.value.toList)).getD [] := by
  rw [amounts, hkey]
  rfl

theorem amounts_rotation (hkey : p.key = "gangle") {degrees : Float}
    (h : Reading.number? p = some degrees) :
    amounts u p = [degrees, Scalar.rotation degrees] := by
  have hnumber := (Option.filter_eq_some_iff.mp h).1
  obtain ⟨n, hn, rfl⟩ := Option.map_eq_some_iff.mp hnumber
  rw [amounts, hkey]
  show (numberAmounts (Reading.text p) Scalar.rotation).getD [] = _
  rw [numberAmounts, hn]
  rfl

/-- A value that comes to a number that is not finite is an error, unless no check
sees it; the error names the setting and the value. -/
theorem read_of_not_finite (h : ¬ AllFinite (amounts r.units p)) (hseen : ¬ Unseen Float p) :
    Setting.read r p = .error (.invalidValue p.key p.value) := by
  unfold amounts at h
  cases hkind : ofKey? p.key with
  | none =>
      rw [hkind] at h
      exact absurd allFinite_nil h
  | some m =>
      cases hamounts : m.amounts? r.units p with
      | none =>
          rw [hkind, Option.bind_some, hamounts] at h
          exact absurd allFinite_nil h
      | some xs =>
          rw [hkind, Option.bind_some, hamounts] at h
          exact read_of_fails (mem_keys hkind)
            (fails_of_not_finite (mem_keys hkind) hamounts h hseen)

end Doubles

end NumberKind

end PictureTree
