/-
# `Proofs.Grammar.Matching` — laws of matching

What holds of every grammar, whatever its rules are:

    a match splits its text      `split_run`, `split_apply`
    an expression that leaves a region matches nothing inside it
                                 `Region.run_eq_none`
    a repetition has no bound    `repeated_eq`
    rules are entered to a depth that suffices
                                 `apply_eq_apply`, `start?_eq_apply`

A region is a kind of text that is closed under parts, such as the texts
without a digit.  Whether an expression leaves it is computed from the
expression alone, so for a given grammar it is decided and not proved.

The last two are about the bounds of the program.  A repetition is bounded by
the length of the text, and rules by a depth that is computed from it; neither
bound is ever met, so nothing of them is seen in a match.
-/
import PictureTree.Grammar.Match

namespace PictureTree

variable {ρ : Type}

/-! ## Matches split their text -/

namespace Match

@[simp] theorem taken_append (m n : Match ρ) : (m ++ n).taken = m.taken ++ n.taken := rfl

@[simp] theorem rest_append (m n : Match ρ) : (m ++ n).rest = n.rest := rfl

@[simp] theorem nodes_append (m n : Match ρ) : (m ++ n).nodes = m.nodes ++ n.nodes := rfl

@[simp] theorem taken_nothing (s : List Char) : (nothing s : Match ρ).taken = [] := rfl

@[simp] theorem rest_nothing (s : List Char) : (nothing s : Match ρ).rest = s := rfl

@[simp] theorem nodes_nothing (s : List Char) : (nothing s : Match ρ).nodes = [] := rfl

@[simp] theorem taken_wrap (kind : RuleKind) (r : ρ) (m : Match ρ) :
    (m.wrap kind r).taken = m.taken := rfl

@[simp] theorem rest_wrap (kind : RuleKind) (r : ρ) (m : Match ρ) :
    (m.wrap kind r).rest = m.rest := rfl

end Match

/-- What every successful match of a function of texts takes and leaves is its text. -/
def Splits (f : List Char → Option (Match ρ)) : Prop :=
  ∀ ⦃s m⦄, f s = some m → m.taken ++ m.rest = s

theorem split_splitTrivia (inComment : Bool) (s : List Char) :
    (splitTrivia inComment s).1 ++ (splitTrivia inComment s).2 = s := by
  fun_induction splitTrivia inComment s with
  | case1 => rfl
  | case2 => rfl
  | case3 inComment c s here still hstill taken rest hrest ih =>
      rw [hrest] at ih
      exact congrArg (c :: ·) ih

theorem split_gap (sp : Spacing) (s : List Char) :
    (gap sp s : Match ρ).taken ++ (gap sp s : Match ρ).rest = s := by
  cases sp with
  | loose => exact split_splitTrivia false s
  | tight => rfl

theorem split_repeated {step : List Char → Option (Match ρ)} (hstep : Splits step) (sp : Spacing)
    (bound : Nat) (s : List Char) :
    (repeated step sp bound s).taken ++ (repeated step sp bound s).rest = s := by
  fun_induction repeated step sp bound s with
  | case1 s => rfl
  | case2 bound s g hnone => rfl
  | case3 bound s g m hm ih =>
      simp only [Match.taken_append, Match.rest_append, List.append_assoc]
      rw [ih, hstep hm]
      exact split_gap sp s

namespace Expr

theorem split_run {call : ρ → List Char → Option (Match ρ)} (hcall : ∀ r, Splits (call r))
    (sp : Spacing) (e : Expr ρ) : Splits (run call sp e) := by
  intro s m h
  induction e generalizing s m with
  | lit t =>
      obtain ⟨rest, hrest, rfl⟩ := Option.map_eq_some_iff.mp h
      exact (Text.after?_eq_some.mp hrest).symm
  | one p =>
      cases s with
      | nil => cases h
      | cons c s =>
          obtain ⟨-, rfl⟩ : p.test c = true ∧ _ = m := by simpa [run] using h
          rfl
  | rule r => exact hcall r h
  | seq a b iha ihb =>
      simp only [run, bind, Option.bind_eq_some_iff, pure, Option.some.injEq] at h
      obtain ⟨m, hm, n, hn, rfl⟩ := h
      simp only [Match.taken_append, Match.rest_append, List.append_assoc]
      rw [ihb hn, split_gap, iha hm]
  | alt a b iha ihb =>
      rw [run] at h
      cases ha : run call sp a s with
      | none => exact ihb (by simpa [ha] using h)
      | some m' =>
          obtain rfl : m' = m := by simpa [ha] using h
          exact iha ha
  | opt e ih =>
      cases he : run call sp e s with
      | none =>
          obtain rfl : Match.nothing s = m := by simpa [run, he] using h
          rfl
      | some m' =>
          obtain rfl : m' = m := by simpa [run, he] using h
          exact ih he
  | star e ih =>
      cases he : run call sp e s with
      | none =>
          obtain rfl : Match.nothing s = m := by simpa [run, he] using h
          rfl
      | some m' =>
          obtain rfl : m' ++ repeated (run call sp e) sp m'.rest.length m'.rest = m := by
            simpa [run, he] using h
          simp only [Match.taken_append, Match.rest_append, List.append_assoc]
          rw [split_repeated ih, ih he]
  | notAhead e ih =>
      cases he : run call sp e s with
      | none =>
          obtain rfl : Match.nothing s = m := by simpa [run, he] using h
          rfl
      | some m' => simp [run, he] at h
  | atEnd =>
      obtain ⟨-, rfl⟩ : s = [] ∧ Match.nothing s = m := by simpa [run] using h
      rfl

end Expr

theorem Grammar.split_apply (g : Grammar ρ) (depth : Nat) (r : ρ) : Splits (g.apply depth r) := by
  induction depth generalizing r with
  | zero => exact fun _ _ h => by cases h
  | succ depth ih =>
      intro s m h
      obtain ⟨n, hn, rfl⟩ := Option.map_eq_some_iff.mp h
      have hsplit : n.taken ++ n.rest = s := Expr.split_run ih _ _ hn
      exact hsplit

/-! ## Regions -/

/-- A kind of text, closed under parts, with literals, classes and rules that
match nothing of the kind. -/
structure Region (ρ : Type) where
  holds : List Char → Prop
  part : ∀ {a b c}, holds (a ++ b ++ c) → holds b
  lit : List Char → Bool
  not_holds_lit : ∀ {t}, lit t = true → ¬ holds t
  one : CharClass → Bool
  not_holds_one : ∀ {p c}, one p = true → p.test c = true → ¬ holds [c]
  rule : ρ → Bool

namespace Region

variable (R : Region ρ)

/-- Whether nothing that an expression matches lies in a region. -/
def left : Expr ρ → Bool
  | .lit t => R.lit t
  | .one p => R.one p
  | .rule r => R.rule r
  | .seq a b => left a || left b
  | .alt a b => left a && left b
  | _ => false

/-- A grammar whose rules leave a region where the region says so. -/
def Bounds (g : Grammar ρ) : Prop := ∀ r, R.rule r = true → R.left (g.body r) = true

variable {R}

theorem not_holds_taken {call : ρ → List Char → Option (Match ρ)}
    (hcall : ∀ r s m, R.rule r = true → call r s = some m → ¬ R.holds m.taken) {sp : Spacing}
    {e : Expr ρ} (he : R.left e = true) {s : List Char} {m : Match ρ}
    (h : e.run call sp s = some m) : ¬ R.holds m.taken := by
  induction e generalizing s m with
  | lit t =>
      obtain ⟨rest, -, rfl⟩ := Option.map_eq_some_iff.mp h
      exact R.not_holds_lit he
  | one p =>
      cases s with
      | nil => cases h
      | cons c s =>
          obtain ⟨hc, rfl⟩ : p.test c = true ∧ _ = m := by simpa [Expr.run] using h
          exact R.not_holds_one he hc
  | rule r => exact hcall r s m he h
  | seq a b iha ihb =>
      simp only [Expr.run, bind, Option.bind_eq_some_iff, pure, Option.some.injEq] at h
      obtain ⟨m, hm, n, hn, rfl⟩ := h
      intro hholds
      rcases Bool.or_eq_true_iff.mp he with ha | hb
      · exact iha ha hm (R.part (a := []) hholds)
      · refine ihb hb hn (R.part (a := m.taken ++ (gap sp m.rest : Match ρ).taken) (c := []) ?_)
        simpa using hholds
  | alt a b iha ihb =>
      obtain ⟨hleft, hright⟩ := Bool.and_eq_true_iff.mp he
      cases ha : a.run call sp s with
      | none => exact ihb hright (by simpa [Expr.run, ha] using h)
      | some m' =>
          obtain rfl : m' = m := by simpa [Expr.run, ha] using h
          exact iha hleft ha
  | opt | star | notAhead | atEnd => cases he

theorem not_holds_taken_apply {g : Grammar ρ} (hg : R.Bounds g) (depth : Nat) (r : ρ)
    (s : List Char) (m : Match ρ) (hr : R.rule r = true) (h : g.apply depth r s = some m) :
    ¬ R.holds m.taken := by
  induction depth generalizing r s m with
  | zero => cases h
  | succ depth ih =>
      obtain ⟨n, hn, rfl⟩ := Option.map_eq_some_iff.mp h
      have htaken : ¬ R.holds n.taken := not_holds_taken ih (hg r hr) hn
      exact htaken

/-- An expression that leaves a region matches nothing inside it. -/
theorem run_eq_none {g : Grammar ρ} (hg : R.Bounds g) {depth : Nat} {sp : Spacing} {e : Expr ρ}
    (he : R.left e = true) {s : List Char} (hs : R.holds s) :
    e.run (g.apply depth) sp s = none := by
  refine Option.eq_none_iff_forall_ne_some.mpr fun m hm => ?_
  refine not_holds_taken (not_holds_taken_apply hg depth) he hm (R.part (a := []) (c := m.rest) ?_)
  rw [List.nil_append, Expr.split_run (g.split_apply depth) sp e hm]
  exact hs

end Region

/-- The texts of some characters only. -/
def Region.within (p : Char → Bool) (one : CharClass → Bool)
    (hone : ∀ {q c}, one q = true → q.test c = true → p c = false) (rules : ρ → Bool) :
    Region ρ where
  holds s := ∀ c ∈ s, p c = true
  part h c hc := h c (List.mem_append_left _ (List.mem_append_right _ hc))
  lit t := t.any fun c => !p c
  not_holds_lit h hall := by
    obtain ⟨c, hc, hp⟩ := List.any_eq_true.mp h
    simp [hall c hc] at hp
  one := one
  not_holds_one h hc hall := by
    have hp := hall _ List.mem_cons_self
    rw [hone h hc] at hp
    cases hp
  rule := rules

/-- The texts with a character, as those that leave the empty text. -/
def Region.empty (rules : ρ → Bool) : Region ρ where
  holds s := s = []
  part h := by simp_all
  lit t := !t.isEmpty
  not_holds_lit h := by simpa using h
  one _ := true
  not_holds_one _ _ := List.cons_ne_nil _ _
  rule := rules

/-! ## Repetitions -/

/-- A function of texts that takes a character whenever it matches. -/
def Consumes (f : List Char → Option (Match ρ)) : Prop :=
  ∀ ⦃s m⦄, f s = some m → m.rest.length < s.length

theorem consumes_of_left {g : Grammar ρ} {rules : ρ → Bool} (hg : (Region.empty rules).Bounds g)
    {depth : Nat} {sp : Spacing} {e : Expr ρ} (he : (Region.empty rules).left e = true) :
    Consumes (e.run (g.apply depth) sp) := by
  intro s m h
  have htaken : m.taken ≠ [] := Region.not_holds_taken (Region.not_holds_taken_apply hg depth) he h
  have hsplit := congrArg List.length (Expr.split_run (g.split_apply depth) sp e h)
  have := List.length_pos_iff.mpr htaken
  rw [List.length_append] at hsplit
  omega

theorem length_rest_gap_le (sp : Spacing) (s : List Char) :
    (gap sp s : Match ρ).rest.length ≤ s.length := by
  have := congrArg List.length (split_gap (ρ := ρ) sp s)
  rw [List.length_append] at this
  omega

theorem Consumes.length_rest_lt {step : List Char → Option (Match ρ)} (hstep : Consumes step)
    {sp : Spacing} {s : List Char} {m : Match ρ} (h : step (gap sp s : Match ρ).rest = some m) :
    m.rest.length < s.length :=
  Nat.lt_of_lt_of_le (hstep h) (length_rest_gap_le sp s)

/-- A repetition never meets its bound: a text cannot hold more of them than it
has characters. -/
theorem repeated_eq_of_le {step : List Char → Option (Match ρ)} (hstep : Consumes step)
    (sp : Spacing) {bound bound' : Nat} {s : List Char} (h : s.length ≤ bound)
    (h' : s.length ≤ bound') : repeated step sp bound s = repeated step sp bound' s := by
  induction bound generalizing bound' s with
  | zero =>
      cases bound' with
      | zero => rfl
      | succ bound' =>
          cases hm : step (gap sp s : Match ρ).rest with
          | none => simp [repeated, hm]
          | some m =>
              have := hstep.length_rest_lt hm
              omega
  | succ bound ih =>
      cases hm : step (gap sp s : Match ρ).rest with
      | none => cases bound' <;> simp [repeated, hm]
      | some m =>
          have := hstep.length_rest_lt hm
          cases bound' with
          | zero => omega
          | succ bound' =>
              have hsame : repeated step sp bound m.rest = repeated step sp bound' m.rest :=
                ih (by omega) (by omega)
              simp only [repeated, hm, hsame]

/-- As many repetitions as there are. -/
def repetitions (step : List Char → Option (Match ρ)) (sp : Spacing) (s : List Char) : Match ρ :=
  repeated step sp s.length s

theorem repetitions_of_none {step : List Char → Option (Match ρ)} {sp : Spacing} {s : List Char}
    (h : step (gap sp s : Match ρ).rest = none) : repetitions step sp s = .nothing s := by
  unfold repetitions
  cases s.length <;> simp [repeated, h]

theorem repetitions_of_some {step : List Char → Option (Match ρ)} (hstep : Consumes step)
    {sp : Spacing} {s : List Char} {m : Match ρ} (h : step (gap sp s : Match ρ).rest = some m) :
    repetitions step sp s = gap sp s ++ (m ++ repetitions step sp m.rest) := by
  have hlength := hstep.length_rest_lt h
  unfold repetitions
  obtain ⟨n, hn⟩ : ∃ n, s.length = n + 1 := Nat.exists_eq_add_one_of_ne_zero (by omega)
  rw [hn, repeated, h]
  dsimp only
  rw [repeated_eq_of_le hstep sp (by omega) (Nat.le_refl _)]

/-- A greedy repetition is its first match, if there is one, and the others. -/
theorem Expr.run_star (call : ρ → List Char → Option (Match ρ)) (sp : Spacing) (e : Expr ρ)
    (s : List Char) : (Expr.star e).run call sp s = some (match e.run call sp s with
      | none => .nothing s
      | some m => m ++ repetitions (e.run call sp) sp m.rest) := by
  rw [run]
  cases e.run call sp s <;> rfl

theorem consumes_one (call : ρ → List Char → Option (Match ρ)) (sp : Spacing) (p : CharClass) :
    Consumes ((Expr.one p).run call sp) := by
  intro s m h
  cases s with
  | nil => cases h
  | cons c s =>
      obtain ⟨-, rfl⟩ : p.test c = true ∧ _ = m := by simpa [Expr.run] using h
      exact Nat.lt_succ_self _

/-- In a tight rule a repeated class takes all characters of the class. -/
theorem repetitions_one (call : ρ → List Char → Option (Match ρ)) (p : CharClass)
    (s : List Char) : repetitions ((Expr.one p).run call .tight) .tight s
      = ⟨s.takeWhile p.test, s.dropWhile p.test, []⟩ := by
  induction s with
  | nil => rfl
  | cons c s ih =>
      cases hc : p.test c with
      | false =>
          rw [repetitions_of_none (by simp [gap, Match.nothing, Expr.run, hc])]
          simp [Match.nothing, hc]
      | true =>
          have hstep : (Expr.one p).run call .tight (gap .tight (c :: s) : Match ρ).rest
              = some ⟨[c], s, []⟩ := by
            simp [gap, Match.nothing, Expr.run, hc]
          rw [repetitions_of_some (consumes_one call .tight p) hstep, ih,
            List.takeWhile_cons_of_pos hc, List.dropWhile_cons_of_pos hc]
          rfl

theorem Expr.run_star_one (call : ρ → List Char → Option (Match ρ)) (p : CharClass)
    (s : List Char) : (Expr.star (.one p)).run call .tight s
      = some ⟨s.takeWhile p.test, s.dropWhile p.test, []⟩ := by
  rw [run_star]
  cases s with
  | nil => rfl
  | cons c s =>
      cases hc : p.test c with
      | false => simp [run, Match.nothing, hc]
      | true =>
          simp only [run, hc, if_true, repetitions_one, List.takeWhile_cons_of_pos hc,
            List.dropWhile_cons_of_pos hc]
          rfl

/-! ## Depth -/

/-- The rules that an expression may enter before it has taken a character. -/
def Expr.heads (rules : ρ → Bool) : Expr ρ → List ρ
  | .rule r => [r]
  | .seq a b =>
    if (Region.empty rules).left a then a.heads rules else a.heads rules ++ b.heads rules
  | .alt a b => a.heads rules ++ b.heads rules
  | .opt e | .star e | .notAhead e => e.heads rules
  | .lit _ | .one _ | .atEnd => []

theorem repeated_congr {step step' : List Char → Option (Match ρ)} (hstep : Splits step)
    {sp : Spacing} {s : List Char} (h : ∀ s', s' <:+ s → step s' = step' s') (bound : Nat) :
    repeated step sp bound s = repeated step' sp bound s := by
  induction bound generalizing s with
  | zero => rfl
  | succ bound ih =>
      have hgap : (gap sp s : Match ρ).rest <:+ s := ⟨_, split_gap sp s⟩
      simp only [repeated]
      rw [← h _ hgap]
      cases hm : step (gap sp s : Match ρ).rest with
      | none => rfl
      | some m =>
          have hrest : m.rest <:+ s := List.IsSuffix.trans ⟨_, hstep hm⟩ hgap
          dsimp only
          rw [ih fun s' hs' => h s' (hs'.trans hrest)]

theorem eq_or_length_lt_of_suffix {s t : List Char} (h : s <:+ t) :
    s = t ∨ s.length < t.length := by
  rcases Nat.lt_or_ge s.length t.length with hlt | hge
  · exact .inr hlt
  · exact .inl (h.eq_of_length_le hge)

theorem repetitions_congr {step step' : List Char → Option (Match ρ)} (hstep : Splits step)
    {sp : Spacing} {s : List Char} (h : ∀ s', s' <:+ s → step s' = step' s') :
    repetitions step sp s = repetitions step' sp s :=
  repeated_congr hstep h s.length

/-- What an expression matches depends on the rules that it may enter at once
and on all rules at shorter texts, and on nothing else. -/
theorem Expr.run_congr {g : Grammar ρ} {rules : ρ → Bool} (hg : (Region.empty rules).Bounds g)
    {depth : Nat} {call : ρ → List Char → Option (Match ρ)} {sp : Spacing} {e : Expr ρ}
    {s : List Char} (hheads : ∀ r ∈ e.heads rules, g.apply depth r s = call r s)
    (hshorter : ∀ r s', s'.length < s.length → g.apply depth r s' = call r s') :
    e.run (g.apply depth) sp s = e.run call sp s := by
  induction e generalizing s with
  | lit | one | atEnd => cases s <;> rfl
  | rule r => exact hheads r List.mem_cons_self
  | seq a b iha ihb =>
      have ha : ∀ r ∈ a.heads rules, r ∈ (Expr.seq a b).heads rules := fun r hr => by
        rw [heads]
        split
        · exact hr
        · exact List.mem_append_left _ hr
      simp only [run]
      rw [← iha (fun r hr => hheads r (ha r hr)) hshorter]
      cases hm : a.run (g.apply depth) sp s with
      | none => rfl
      | some m =>
          have hsplit : m.taken ++ m.rest = s := split_run (g.split_apply depth) sp a hm
          have hlength := congrArg List.length hsplit
          have hgap := length_rest_gap_le (ρ := ρ) sp m.rest
          have hgap' : (gap sp m.rest : Match ρ).rest <:+ s :=
            List.IsSuffix.trans ⟨_, split_gap sp m.rest⟩ ⟨_, hsplit⟩
          rw [List.length_append] at hlength
          have hb : b.run (g.apply depth) sp (gap sp m.rest : Match ρ).rest
              = b.run call sp (gap sp m.rest : Match ρ).rest := by
            refine ihb (fun r hr => ?_) fun r s' hs' => hshorter r s' (by omega)
            rcases eq_or_length_lt_of_suffix hgap' with hstart | hshort
            · -- `b` starts where `a` started, so `a` takes nothing
              have htaken : m.taken = [] := by
                rw [hstart] at hgap
                exact List.length_eq_zero_iff.mp (by omega)
              have hleft : (Region.empty rules).left a ≠ true := fun hleft =>
                Region.not_holds_taken (Region.not_holds_taken_apply hg depth) hleft hm htaken
              rw [hstart]
              exact hheads r (by rw [heads, if_neg hleft]; exact List.mem_append_right _ hr)
            · exact hshorter r _ hshort
          simp only [bind, Option.bind_some, hb]
  | alt a b iha ihb =>
      simp only [run]
      rw [iha (fun r hr => hheads r (List.mem_append_left _ hr)) hshorter,
        ihb (fun r hr => hheads r (List.mem_append_right _ hr)) hshorter]
  | opt e ih => rw [run, run, ih hheads hshorter]
  | star e ih =>
      have hsame : ∀ s', s' <:+ s → e.run (g.apply depth) sp s' = e.run call sp s' := by
        intro s' hs'
        rcases eq_or_length_lt_of_suffix hs' with rfl | hshort
        · exact ih hheads hshorter
        · exact ih (fun r _ => hshorter r s' hshort) fun r t ht =>
            hshorter r t (Nat.lt_trans ht hshort)
      rw [run_star, run_star, ← hsame s List.suffix_rfl]
      cases hm : e.run (g.apply depth) sp s with
      | none => rfl
      | some m =>
          have hrest : m.rest <:+ s := ⟨_, split_run (g.split_apply depth) sp e hm⟩
          dsimp only
          rw [repetitions_congr (split_run (g.split_apply depth) sp e) fun s' hs' =>
            hsame s' (hs'.trans hrest)]
  | notAhead e ih => rw [run, run, ih hheads hshorter]

namespace Grammar

/-- A rank for every rule, below that of the rules that enter it before they
have taken a character. -/
def Ranked (g : Grammar ρ) (rules : ρ → Bool) (rank : ρ → Nat) : Prop :=
  ∀ r, rank r < g.ranks ∧ ∀ r' ∈ (g.body r).heads rules, rank r' < rank r

/-- A rule that is entered deep enough may be entered at any greater depth. -/
theorem apply_eq_apply {g : Grammar ρ} {rules : ρ → Bool} {rank : ρ → Nat}
    (hg : (Region.empty rules).Bounds g) (hrank : g.Ranked rules rank) {depth depth' : Nat}
    {r : ρ} {s : List Char} (h : g.ranks * s.length + rank r < depth)
    (h' : g.ranks * s.length + rank r < depth') : g.apply depth r s = g.apply depth' r s := by
  induction depth generalizing depth' r s with
  | zero => omega
  | succ depth ih =>
      cases depth' with
      | zero => omega
      | succ depth' =>
          rw [apply, apply]
          congr 1
          refine Expr.run_congr hg (fun r' hr' => ?_) fun r' s' hs' => ?_
          · have := (hrank r).2 r' hr'
            exact ih (by omega) (by omega)
          · have hr' := (hrank r').1
            have hlength : g.ranks * (s'.length + 1) ≤ g.ranks * s.length :=
              Nat.mul_le_mul_left _ hs'
            rw [Nat.mul_add_one] at hlength
            exact ih (by omega) (by omega)

/-- The depth to which the rules of a text are entered suffices. -/
theorem start?_eq_apply {g : Grammar ρ} {rules : ρ → Bool} {rank : ρ → Nat}
    (hg : (Region.empty rules).Bounds g) (hrank : g.Ranked rules rank) {depth : Nat} {r : ρ}
    {s : List Char} (h : g.ranks * (s.length + 1) ≤ depth) :
    g.start? r s = g.apply depth r s := by
  have hr := (hrank r).1
  rw [Nat.mul_add_one] at h
  refine apply_eq_apply hg hrank ?_ ?_
  · rw [Nat.mul_add_one]
    omega
  · omega

end Grammar

end PictureTree
