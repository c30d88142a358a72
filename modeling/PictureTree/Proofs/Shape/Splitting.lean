/-
# `Proofs.Shape.Splitting` — a smooth path and the points that write it

A smooth path is written as one list of points, and is kept as two: the vertices, and
one control point for each of them.  With `n` segments the list is

    p 0,  o 0, c 1, p 1,  o 1, c 2, p 2,  …  o (n - 1), c n, p n

where a segment goes out from its start by `o i` and comes in to its end by `c (i + 1)`.
The origin stands for a start that is missing, and points behind the last whole segment
are left out (`Bezier.written`).

What is kept are the vertices and the incoming control points.  The outgoing ones are
taken to be their reflections; only the first vertex of an open path has none, and
there the outgoing one is kept, reflected.  So nothing is lost of a path whose outgoing
control points are such reflections: `Bezier.spelled` writes it out again.  The end of a
closed path is its start, and is written as that.
-/
import PictureTree.Proofs.Shape.Motion
import PictureTree.Proofs.Shape.Resolution

namespace PictureTree.Bezier

/-! ## Triples -/

section Triples

variable {β : Type}

theorem length_div_eq_zero {bs : List β} (h : ∀ a b c rest, bs = a :: b :: c :: rest → False) :
    bs.length / 3 = 0 := by
  match bs with
  | [] | [_] | [_, _] => simp
  | a :: b :: c :: rest => exact (h a b c rest rfl).elim

theorem length_triples (bs : List β) : (triples bs).length = bs.length / 3 := by
  induction bs using triples.induct with
  | case1 a b c rest ih =>
      simp only [triples, List.length_cons, ih]
      omega
  | case2 bs h =>
      rw [triples.eq_2 bs h]
      exact (length_div_eq_zero h).symm

/-- The triples of a list are the list, up to the last whole one. -/
theorem flatMap_triples (bs : List β) :
    (triples bs).flatMap (fun s => [s.1, s.2.1, s.2.2]) = bs.take (3 * (bs.length / 3)) := by
  induction bs using triples.induct with
  | case1 a b c rest ih =>
      have hlength : 3 * ((a :: b :: c :: rest).length / 3) = 3 * (rest.length / 3) + 3 := by
        simp only [List.length_cons]
        omega
      rw [triples, List.flatMap_cons, ih, hlength]
      rfl
  | case2 bs h =>
      rw [triples.eq_2 bs h, length_div_eq_zero h, Nat.mul_zero, List.take_zero, List.flatMap_nil]

/-- The segments behind a start, by their control points and vertices. -/
theorem exists_triples_eq (start : β) (bs : List β) :
    ∃ p o c : Nat → β, p 0 = start ∧ triples bs
      = (List.range (bs.length / 3)).map fun i => (o i, c (i + 1), p (i + 1)) := by
  let s (i : Nat) : β × β × β := ((triples bs)[i]?).getD (start, start, start)
  refine ⟨fun i => if i = 0 then start else (s (i - 1)).2.2, fun i => (s i).1,
    fun i => (s (i - 1)).2.1, if_pos rfl, ?_⟩
  refine List.ext_getElem (by simp [length_triples]) fun i hi _ => ?_
  simp [s, List.getElem?_eq_getElem hi]

end Triples

/-! ## Writing a path -/

section Writing

variable {α : Type} [Scalar α]

/-- The points of a list that a path is made of: the start, which is the origin if the
list has none, and three points for every segment. -/
def written (raw : List (Point α)) : List (Point α) :=
  ((if raw.length % 3 = 0 then [Point.origin] else []) ++ raw).take (3 * (raw.length / 3) + 1)

/-- The point list of a path: the start, and for every segment its two control points
and its end. -/
def spelled (b : Bezier α) : List (Point α) :=
  let segments := if b.closed then b.points.length else b.points.length - 1
  b.points.take 1 ++ (List.range segments).flatMap fun i =>
    let next := (i + 1) % b.points.length
    (b.secondControl? i).toList ++ b.controls[next]?.toList ++ b.points[next]?.toList

/-- What is written of a list is a start and the triples behind it. -/
theorem exists_written_eq {raw : List (Point α)} (h : 3 ≤ raw.length) :
    ∃ p o c : Nat → Point α,
      ofPoints? raw = ofSegments? (p 0)
        ((List.range (raw.length / 3)).map fun i => (o i, c (i + 1), p (i + 1))) ∧
      written raw = p 0 ::
        (List.range (raw.length / 3)).flatMap fun i => [o i, c (i + 1), p (i + 1)] := by
  obtain ⟨start, rest, hrest, hraw, hwritten⟩ : ∃ start rest, rest.length / 3 = raw.length / 3 ∧
      ofPoints? raw = ofSegments? start (triples rest) ∧
      written raw = start :: rest.take (3 * (rest.length / 3)) := by
    by_cases hmod : raw.length % 3 = 0
    · refine ⟨.origin, raw, rfl, if_pos hmod, ?_⟩
      rw [written, if_pos hmod]
      rfl
    · obtain ⟨start, rest, rfl⟩ := List.exists_cons_of_length_pos (by omega : 0 < raw.length)
      have hrest : rest.length / 3 = (start :: rest).length / 3 := by
        rw [List.length_cons] at hmod ⊢
        omega
      refine ⟨start, rest, hrest, if_neg hmod, ?_⟩
      rw [written, if_neg hmod, hrest]
      rfl
  obtain ⟨p, o, c, rfl, htriples⟩ := exists_triples_eq start rest
  rw [hrest] at htriples
  refine ⟨p, o, c, by rw [hraw, htriples], ?_⟩
  rw [hwritten, ← flatMap_triples, htriples, List.flatMap_map]

/-- The open path of `m + 1` segments. -/
def openPath (p o c : Nat → Point α) (m : Nat) : Bezier α where
  points := (List.range (m + 2)).map p
  controls := (o 0).reflect (p 0) :: (List.range (m + 1)).map fun i => c (i + 1)
  closed := false

/-- The closed path of `m + 1` segments. -/
def closedPath (p c : Nat → Point α) (m : Nat) : Bezier α where
  points := (List.range (m + 1)).map p
  controls := c (m + 1) :: (List.range m).map fun i => c (i + 1)
  closed := true

/-- The path of some segments, by the first and the last one. -/
theorem ofSegments?_eq (start : Point α) {segments : List (Point α × Point α × Point α)}
    (h : segments ≠ []) :
    ofSegments? start segments
      = some (if Scalar.lt ((segments.getLast h).2.2.distance start) closingDistance
          then ⟨start :: (segments.map fun s => s.2.2).dropLast,
            (segments.getLast h).2.1 :: (segments.map fun s => s.2.1).dropLast, true⟩
          else ⟨start :: segments.map fun s => s.2.2,
            (segments.head h).1.reflect start :: segments.map fun s => s.2.1, false⟩) := by
  obtain ⟨s, more, rfl⟩ := List.exists_cons_of_ne_nil h
  have hlast (f : Point α × Point α × Point α → Point α) :
      (more.getLast?.map f).getD (f s) = f ((s :: more).getLast h) := by
    cases more using List.reverseRecOn with
    | nil => rfl
    | append_singleton => simp
  rw [ofSegments?, hlast fun s => s.2.2, hlast fun s => s.2.1]
  split <;> rfl

/-- A path is closed if its last vertex is as good as its first one. -/
theorem ofSegments?_range (p o c : Nat → Point α) (m : Nat) :
    ofSegments? (p 0) ((List.range (m + 1)).map fun i => (o i, c (i + 1), p (i + 1)))
      = some (if Scalar.lt ((p (m + 1)).distance (p 0)) closingDistance
          then closedPath p c m else openPath p o c m) := by
  have hcons (n : Nat) :
      (List.range (n + 1)).map p = p 0 :: (List.range n).map fun i => p (i + 1) := by
    rw [List.range_succ_eq_map, List.map_cons, List.map_map]
    rfl
  have hlast {β : Type} (f : Nat → β) (h) : ((List.range (m + 1)).map f).getLast h = f m := by
    simp [List.range_succ]
  have hhead {β : Type} (f : Nat → β) (h) : ((List.range (m + 1)).map f).head h = f 0 := by
    simp [List.range_succ_eq_map]
  have hdrop {β : Type} (f : Nat → β) :
      ((List.range (m + 1)).map f).dropLast = (List.range m).map f := by
    simp [List.range_succ]
  rw [ofSegments?_eq _ (by simp), closedPath, openPath, hlast, hhead, hcons, hcons, List.map_map,
    List.map_map, hdrop, hdrop]
  rfl

section Lookup

variable (p o c : Nat → Point α) {m i : Nat}

theorem points_openPath (h : i ≤ m + 1) : (openPath p o c m).points[i]? = some (p i) := by
  simp [openPath, Nat.lt_succ_of_le h]

theorem controls_openPath (h : 1 ≤ i) (hi : i ≤ m + 1) :
    (openPath p o c m).controls[i]? = some (c i) := by
  obtain ⟨k, rfl⟩ := Nat.exists_eq_add_of_le' h
  simp [openPath, Nat.lt_of_succ_le hi]

omit [Scalar α] in
theorem points_closedPath (h : i ≤ m) : (closedPath p c m).points[i]? = some (p i) := by
  simp [closedPath, Nat.lt_succ_of_le h]

omit [Scalar α] in
theorem controls_closedPath (h : 1 ≤ i) (hi : i ≤ m) :
    (closedPath p c m).controls[i]? = some (c i) := by
  obtain ⟨k, rfl⟩ := Nat.exists_eq_add_of_le' h
  simp [closedPath, Nat.lt_of_succ_le hi]

end Lookup

/-- A vertex with its control point has the reflection on its other side. -/
theorem secondControl?_of_getElem? {b : Bezier α} {i : Nat} {vertex control : Point α}
    (hvertex : b.points[i]? = some vertex) (hcontrol : b.controls[i]? = some control) :
    b.secondControl? i = some (control.reflect vertex) := by
  rw [secondControl?, hvertex, hcontrol]
  rfl

/-- A path whose parts are known is spelled by them. -/
theorem spelled_eq {b : Bezier α} {n : Nat} {o c q : Nat → Point α}
    (hn : (if b.closed then b.points.length else b.points.length - 1) = n)
    (hstart : b.points[0]? = some (q 0))
    (hparts : ∀ i < n, b.secondControl? i = some (o i) ∧
      b.controls[(i + 1) % b.points.length]? = some (c (i + 1)) ∧
      b.points[(i + 1) % b.points.length]? = some (q (i + 1))) :
    b.spelled = q 0 :: (List.range n).flatMap fun i => [o i, c (i + 1), q (i + 1)] := by
  obtain ⟨p, rest, hpoints⟩ : ∃ p rest, b.points = p :: rest :=
    List.exists_cons_of_ne_nil fun hnil => by simp [hnil] at hstart
  have hp : p = q 0 := by simpa [hpoints] using hstart
  have htake : b.points.take 1 = [q 0] := by rw [hpoints, hp]; rfl
  rw [spelled, hn, htake]
  refine congrArg (q 0 :: ·) (List.flatMap_congr fun i hi => ?_)
  obtain ⟨hsecond, hcontrol, hvertex⟩ := hparts i (List.mem_range.mp hi)
  simp only [hsecond, hcontrol, hvertex]
  rfl

end Writing

/-! ## What is kept of a path -/

section Kept

variable {α : Type} [ExactScalar α]

theorem closingDistance_eq : (closingDistance : α) = 1 / 100000 := by
  show ExactScalar.ofNumeral (.decimal false 1 (-5)) = _
  rw [ExactScalar.ofNumeral_decimal, if_neg Bool.false_ne_true]
  norm_num

/-- An open path is spelled as it is written, if its outgoing control points are
reflections. -/
theorem spelled_openPath {p o c : Nat → Point α} {m : Nat}
    (h : ∀ i, 1 ≤ i → i < m + 1 → o i = (c i).reflect (p i)) :
    (∀ i < m + 1, (openPath p o c m).secondControl? i = some (o i)) ∧
    (openPath p o c m).spelled
      = p 0 :: (List.range (m + 1)).flatMap fun i => [o i, c (i + 1), p (i + 1)] := by
  have hsecond (i : Nat) (hi : i < m + 1) :
      (openPath p o c m).secondControl? i = some (o i) := by
    cases i with
    | zero =>
        rw [secondControl?_of_getElem? (points_openPath p o c (Nat.zero_le _)) rfl,
          Point.reflect_reflect]
    | succ i =>
        rw [secondControl?_of_getElem? (points_openPath p o c hi.le)
          (controls_openPath p o c (Nat.le_add_left 1 i) hi.le), h _ (Nat.le_add_left 1 i) hi]
  refine ⟨hsecond, spelled_eq ?_ (points_openPath p o c (Nat.zero_le _)) fun i hi => ?_⟩
  · simp [openPath]
  · have hnext : (i + 1) % (openPath p o c m).points.length = i + 1 := by
      simp only [openPath, List.length_map, List.length_range]
      exact Nat.mod_eq_of_lt (by omega)
    rw [hnext]
    exact ⟨hsecond i hi, controls_openPath p o c (Nat.le_add_left 1 i) hi,
      points_openPath p o c hi⟩

/-- A closed path is spelled as it is written, if its outgoing control points are
reflections, but with its start at the end as well. -/
theorem spelled_closedPath {p o c : Nat → Point α} {m : Nat}
    (h : ∀ i, 1 ≤ i → i < m + 1 → o i = (c i).reflect (p i))
    (hstart : o 0 = (c (m + 1)).reflect (p 0)) :
    (∀ i < m + 1, (closedPath p c m).secondControl? i = some (o i)) ∧
    (closedPath p c m).spelled
      = p 0 :: (List.range (m + 1)).flatMap fun i =>
          [o i, c (i + 1), Function.update p (m + 1) (p 0) (i + 1)] := by
  have hsecond (i : Nat) (hi : i < m + 1) :
      (closedPath p c m).secondControl? i = some (o i) := by
    cases i with
    | zero => rw [secondControl?_of_getElem? (points_closedPath p c (Nat.zero_le _)) rfl, hstart]
    | succ i =>
        rw [secondControl?_of_getElem? (points_closedPath p c (Nat.le_of_lt_succ hi))
          (controls_closedPath p c (Nat.le_add_left 1 i) (Nat.le_of_lt_succ hi)),
          h _ (Nat.le_add_left 1 i) hi]
  have hlength : (closedPath p c m).points.length = m + 1 := by simp [closedPath]
  have hfirst : Function.update p (m + 1) (p 0) 0 = p 0 :=
    Function.update_of_ne (Nat.succ_ne_zero m).symm _ _
  have hspelled := spelled_eq (b := closedPath p c m) (o := o) (c := c)
    (q := Function.update p (m + 1) (p 0)) hlength
    (by rw [hfirst, points_closedPath p c (Nat.zero_le _)]) fun i hi => ⟨hsecond i hi, ?_⟩
  · rw [hfirst] at hspelled
    exact ⟨hsecond, hspelled⟩
  rw [hlength]
  by_cases hlast : i = m
  · subst hlast
    rw [Nat.mod_self, Function.update_self]
    exact ⟨rfl, points_closedPath p c (Nat.zero_le _)⟩
  · have hinner : i + 1 ≤ m := by omega
    rw [Nat.mod_eq_of_lt (Nat.lt_succ_of_le hinner), Function.update_of_ne (by omega)]
    exact ⟨controls_closedPath p c (Nat.le_add_left 1 i) hinner, points_closedPath p c hinner⟩

omit [ExactScalar α] in
/-- The list of a path with another last vertex. -/
theorem dropLast_flatMap (p o c : Nat → Point α) (m : Nat) (x : Point α) :
    (p 0 :: (List.range (m + 1)).flatMap fun i => [o i, c (i + 1), p (i + 1)]).dropLast ++ [x]
      = p 0 :: (List.range (m + 1)).flatMap fun i =>
          [o i, c (i + 1), Function.update p (m + 1) x (i + 1)] := by
  have hinner : (List.range m).flatMap (fun i =>
        [o i, c (i + 1), Function.update p (m + 1) x (i + 1)])
      = (List.range m).flatMap fun i => [o i, c (i + 1), p (i + 1)] := by
    refine List.flatMap_congr fun i hi => ?_
    have hne : i + 1 ≠ m + 1 := fun heq => absurd (List.mem_range.mp hi) (by omega)
    rw [Function.update_of_ne hne]
  rw [List.range_succ, List.flatMap_append, List.flatMap_append, hinner, List.flatMap_singleton,
    List.flatMap_singleton, Function.update_self, ← List.cons_append, ← List.cons_append,
    List.dropLast_append_of_ne_nil (List.cons_ne_nil _ _)]
  simp

/-- What a path keeps of the segments that it is written by: of an open one, all vertices,
the incoming control points, and the first outgoing one; of a closed one, whose ends lie
less than a hundred thousandth apart, all but the last vertex, and the last incoming
control point in the place of the first.  From this it is spelled, if its outgoing control
points are the reflections of the incoming ones. -/
structure Keeps (b : Bezier α) (n : Nat) (p o c : Nat → Point α) : Prop where
  length : b.points.length = b.controls.length
  nonempty : b.points ≠ []
  ofOpen : 1 / 100000 ≤ (p n).distance (p 0) →
    b.closed = false ∧ b.points = (List.range (n + 1)).map p ∧
      (∀ i, 1 ≤ i → i ≤ n → b.controls[i]? = some (c i)) ∧ b.secondControl? 0 = some (o 0)
  ofClosed : (p n).distance (p 0) < 1 / 100000 →
    b.closed = true ∧ b.points = (List.range n).map p ∧
      b.controls[0]? = some (c n) ∧ ∀ i, 1 ≤ i → i < n → b.controls[i]? = some (c i)
  spelled : (∀ i, 1 ≤ i → i < n → o i = (c i).reflect (p i)) →
    (b.closed = true → o 0 = (c n).reflect (p 0)) →
    (∀ i < n, b.secondControl? i = some (o i)) ∧
      b.spelled = (p 0 :: (List.range n).flatMap fun i => [o i, c (i + 1), p (i + 1)]).dropLast
        ++ [if b.closed then p 0 else p n]

theorem keeps_openPath {p o c : Nat → Point α} {m : Nat}
    (h : 1 / 100000 ≤ (p (m + 1)).distance (p 0)) : (openPath p o c m).Keeps (m + 1) p o c where
  length := by simp [openPath]
  nonempty := by simp [openPath]
  ofOpen _ := by
    have hsecond := secondControl?_of_getElem? (points_openPath p o c (Nat.zero_le (m + 1))) rfl
    rw [Point.reflect_reflect] at hsecond
    exact ⟨rfl, rfl, fun i hone hi => controls_openPath p o c hone hi, hsecond⟩
  ofClosed hlt := absurd h (not_le.mpr hlt)
  spelled hreflect _ := by
    obtain ⟨hsecond, hspelled⟩ := spelled_openPath hreflect
    refine ⟨hsecond, hspelled.trans (Eq.trans ?_ (dropLast_flatMap p o c m (p (m + 1))).symm)⟩
    rw [Function.update_eq_self]

theorem keeps_closedPath {p o c : Nat → Point α} {m : Nat}
    (h : (p (m + 1)).distance (p 0) < 1 / 100000) : (closedPath p c m).Keeps (m + 1) p o c where
  length := by simp [closedPath]
  nonempty := by simp [closedPath]
  ofOpen hle := absurd h (not_lt.mpr hle)
  ofClosed _ :=
    ⟨rfl, rfl, rfl, fun _ hone hi => controls_closedPath p c hone (Nat.le_of_lt_succ hi)⟩
  spelled hreflect hstart := by
    obtain ⟨hsecond, hspelled⟩ := spelled_closedPath hreflect (hstart rfl)
    exact ⟨hsecond, hspelled.trans (dropLast_flatMap p o c m (p 0)).symm⟩

/-- A list of three points or more, and no shorter one, is a path of as many segments as
it has whole triples. -/
theorem ofPoints?_keeps (raw : List (Point α)) :
    (ofPoints? raw = none ↔ raw.length < 3) ∧
    (3 ≤ raw.length → ∃ (b : Bezier α) (p o c : Nat → Point α), ofPoints? raw = some b ∧
      written raw = p 0 ::
        (List.range (raw.length / 3)).flatMap (fun i => [o i, c (i + 1), p (i + 1)]) ∧
      b.Keeps (raw.length / 3) p o c) := by
  constructor
  · rw [← not_le, ← ShapeCommand.ofPoints?_isSome_iff, Option.not_isSome_iff_eq_none]
  intro hlength
  obtain ⟨p, o, c, hpath, hwritten⟩ := exists_written_eq hlength
  obtain ⟨m, hm⟩ := Nat.exists_eq_add_of_le' (Nat.div_pos hlength (Nat.zero_lt_succ 2))
  rw [hm, ofSegments?_range, closingDistance_eq] at hpath
  rw [hm] at hwritten ⊢
  by_cases hclosed : (p (m + 1)).distance (p 0) < 1 / 100000
  · have hlt : Scalar.lt ((p (m + 1)).distance (p 0)) (1 / 100000) = true :=
      decide_eq_true hclosed
    rw [if_pos hlt] at hpath
    exact ⟨closedPath p c m, p, o, c, hpath, hwritten, keeps_closedPath hclosed⟩
  · have hlt : ¬ Scalar.lt ((p (m + 1)).distance (p 0)) (1 / 100000) = true := fun h =>
      hclosed (of_decide_eq_true h)
    rw [if_neg hlt] at hpath
    exact ⟨openPath p o c m, p, o, c, hpath, hwritten, keeps_openPath (not_lt.mp hclosed)⟩

/-- A loop of one segment, which comes in opposite to where it goes out, is kept as one
vertex with one control point, and spells the list that writes it. -/
theorem ofPoints?_keeps_loop :
    let raw : List (Point ℝ) := [⟨1, 1⟩, ⟨2, 1⟩, ⟨0, 1⟩, ⟨1, 1⟩]
    3 ≤ raw.length ∧ ∃ b : Bezier ℝ, ofPoints? raw = some b ∧ b.closed = true ∧
      b.points = [⟨1, 1⟩] ∧ b.controls[0]? = some ⟨0, 1⟩ ∧ b.secondControl? 0 = some ⟨2, 1⟩ ∧
      b.spelled = raw := by
  intro raw
  have hlength : 3 ≤ raw.length := Nat.le_succ 3
  obtain ⟨b, p, o, c, hb, hwritten, hkeeps⟩ := (ofPoints?_keeps raw).2 hlength
  have hraw : written raw = raw := by simp [written, raw]
  have hone : raw.length / 3 = 1 := by simp [raw]
  rw [hone] at hwritten hkeeps
  obtain ⟨hp0, ho0, hc1, hp1⟩ :
      ⟨1, 1⟩ = p 0 ∧ ⟨2, 1⟩ = o 0 ∧ ⟨0, 1⟩ = c 1 ∧ ⟨1, 1⟩ = p 1 := by
    rw [hraw] at hwritten
    simpa [raw] using hwritten
  have hends : (p 1).distance (p 0) < 1 / 100000 := by
    rw [← hp0, ← hp1]
    show Real.sqrt ((1 - 1) * (1 - 1) + (1 - 1) * (1 - 1)) < 1 / 100000
    norm_num
  have hreflect : o 0 = (c 1).reflect (p 0) := by
    rw [← hp0, ← ho0, ← hc1]
    simp only [Point.reflect, ExactScalar.literal_eq]
    norm_num
  obtain ⟨hclosed, hpoints, hcontrol, -⟩ := hkeeps.ofClosed hends
  obtain ⟨hsecond, hspelled⟩ := hkeeps.spelled
    (fun i hpos hi => absurd hi (not_lt.mpr hpos)) fun _ => hreflect
  refine ⟨hlength, b, hb, hclosed, ?_, hc1 ▸ hcontrol, ho0 ▸ hsecond 0 Nat.one_pos, ?_⟩
  · rw [hpoints]
    simp [hp0]
  · rw [hspelled, hclosed]
    simp [raw, ← hp0, ← ho0, ← hc1]

end Kept

end PictureTree.Bezier
