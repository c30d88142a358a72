/-
# `Proofs.Grammar.Derivation` — a grammar read without its order

The matching of a grammar is ordered: a choice takes the first alternative that
matches, a repetition goes on as long as it can, and look-ahead may forbid a
match.  Without all that a grammar only says which texts its expressions may
take and which nodes they make of them; this is `Grammar.Derives`, an inductive
relation with one constructor for each form of an expression.

    whatever is matched is derived          `Grammar.derives_apply`
    a derivation has derivations for parts  `Grammar.Derives.makes`

The converse does not hold, and is not needed: what is shown here of every
derivation holds of every match, at any depth and in front of any text, and it
is shown by induction on the derivation, with no run of a parser in sight.
-/
import PictureTree.Proofs.Grammar.Matching

namespace PictureTree

variable {ρ : Type}

/-! ## Blanks and comments -/

/-- A text of blanks and comments and nothing else. -/
def Trivia (t : List Char) : Prop := splitTrivia false t = (t, [])

/-- A text that may stand between two parts. -/
def Between : Spacing → List Char → Prop
  | .tight, t => t = []
  | .loose, t => Trivia t

theorem splitTrivia_taken (inComment : Bool) (s : List Char) :
    splitTrivia inComment (splitTrivia inComment s).1 = ((splitTrivia inComment s).1, []) := by
  fun_induction splitTrivia inComment s with
  | case1 => rfl
  | case2 => rfl
  | case3 inComment c s here still hstill taken rest hrest ih =>
      rw [hrest] at ih
      simp only [splitTrivia]
      have hhere : (if inComment then some (!(c == '\r' || c == '\n'))
          else if isSpace c then some false
          else if c == '%' then some true
          else none) = some still := hstill
      rw [hhere]
      simp only [ih]

theorem between_gap (sp : Spacing) (s : List Char) : Between sp (gap sp s : Match ρ).taken := by
  cases sp with
  | tight => rfl
  | loose => exact splitTrivia_taken false s

theorem between_nil (sp : Spacing) : Between sp [] := by
  cases sp with
  | tight => rfl
  | loose => rfl

/-! ## Derivations -/

/-- The parts that a node of a rule shows, of the nodes that were made inside it. -/
def RuleKind.shown : RuleKind → List (Node ρ) → List (Node ρ)
  | .token, _ => []
  | .phrase, ns | .compound, ns => ns

theorem Match.nodes_wrap (kind : RuleKind) (r : ρ) (m : Match ρ) :
    (m.wrap kind r).nodes = [.mk r m.taken (kind.shown m.nodes)] := by
  cases kind <;> rfl

/-- The texts that an expression may take, with the nodes that it makes of them. -/
inductive Grammar.Derives (g : Grammar ρ) :
    Spacing → Expr ρ → List Char → List (Node ρ) → Prop
  | lit {sp : Spacing} (t : List Char) : Derives g sp (.lit t) t []
  | one {sp : Spacing} {p : CharClass} {c : Char} (h : p.test c = true) :
      Derives g sp (.one p) [c] []
  | rule {sp : Spacing} {r : ρ} {t : List Char} {ns : List (Node ρ)}
      (h : Derives g (g.kind r).spacing (g.body r) t ns) :
      Derives g sp (.rule r) t [.mk r t ((g.kind r).shown ns)]
  | seq {sp : Spacing} {a b : Expr ρ} {t u v : List Char} {ns ms : List (Node ρ)}
      (ha : Derives g sp a t ns) (hu : Between sp u) (hb : Derives g sp b v ms) :
      Derives g sp (.seq a b) (t ++ (u ++ v)) (ns ++ ms)
  | left {sp : Spacing} {a b : Expr ρ} {t : List Char} {ns : List (Node ρ)}
      (h : Derives g sp a t ns) : Derives g sp (.alt a b) t ns
  | right {sp : Spacing} {a b : Expr ρ} {t : List Char} {ns : List (Node ρ)}
      (h : Derives g sp b t ns) : Derives g sp (.alt a b) t ns
  | absent {sp : Spacing} {e : Expr ρ} : Derives g sp (.opt e) [] []
  | present {sp : Spacing} {e : Expr ρ} {t : List Char} {ns : List (Node ρ)}
      (h : Derives g sp e t ns) : Derives g sp (.opt e) t ns
  | done {sp : Spacing} {e : Expr ρ} : Derives g sp (.star e) [] []
  | more {sp : Spacing} {e : Expr ρ} {t u v : List Char} {ns ms : List (Node ρ)}
      (he : Derives g sp e t ns) (hu : Between sp u) (hs : Derives g sp (.star e) v ms) :
      Derives g sp (.star e) (t ++ (u ++ v)) (ns ++ ms)
  | notAhead {sp : Spacing} {e : Expr ρ} : Derives g sp (.notAhead e) [] []
  | atEnd {sp : Spacing} : Derives g sp .atEnd [] []

/-! ## Derivations of each form -/

namespace Grammar.Derives

variable {g : Grammar ρ} {sp : Spacing} {a b e : Expr ρ} {p : CharClass} {t : List Char}
  {ns : List (Node ρ)}

theorem eq_of_lit {u : List Char} (h : g.Derives sp (.lit u) t ns) : t = u ∧ ns = [] := by
  cases h
  exact ⟨rfl, rfl⟩

theorem exists_of_one (h : g.Derives sp (.one p) t ns) :
    ∃ c, p.test c = true ∧ t = [c] ∧ ns = [] := by
  cases h with
  | one hc => exact ⟨_, hc, rfl, rfl⟩

theorem exists_of_rule {r : ρ} (h : g.Derives sp (.rule r) t ns) :
    ∃ ms, g.Derives (g.kind r).spacing (g.body r) t ms ∧
      ns = [.mk r t ((g.kind r).shown ms)] := by
  cases h with
  | rule h => exact ⟨_, h, rfl⟩

theorem exists_of_seq (h : g.Derives sp (.seq a b) t ns) :
    ∃ u v w ms ms', t = u ++ (v ++ w) ∧ ns = ms ++ ms' ∧ g.Derives sp a u ms ∧ Between sp v ∧
      g.Derives sp b w ms' := by
  cases h with
  | seq ha hu hb => exact ⟨_, _, _, _, _, rfl, rfl, ha, hu, hb⟩

/-- In a tight rule nothing stands between the parts. -/
theorem exists_of_tight_seq (h : g.Derives .tight (.seq a b) t ns) :
    ∃ u w ms ms', t = u ++ w ∧ g.Derives .tight a u ms ∧ g.Derives .tight b w ms' := by
  obtain ⟨u, v, w, ms, ms', rfl, -, ha, rfl, hb⟩ := h.exists_of_seq
  exact ⟨u, w, ms, ms', rfl, ha, hb⟩

theorem or_of_alt (h : g.Derives sp (.alt a b) t ns) :
    g.Derives sp a t ns ∨ g.Derives sp b t ns := by
  cases h with
  | left h => exact .inl h
  | right h => exact .inr h

theorem exists_of_alts {es : List (Expr ρ)} (h : g.Derives sp (.alts es) t ns) :
    ∃ e ∈ es, g.Derives sp e t ns := by
  induction es with
  | nil =>
      obtain ⟨c, hc, -⟩ := exists_of_one h
      cases hc
  | cons e es ih =>
      cases es with
      | nil => exact ⟨e, List.mem_cons_self, h⟩
      | cons e' es =>
          rcases or_of_alt h with h | h
          · exact ⟨e, List.mem_cons_self, h⟩
          · obtain ⟨e'', he, h⟩ := ih h
            exact ⟨e'', List.mem_cons_of_mem _ he, h⟩

theorem or_of_opt (h : g.Derives sp (.opt e) t ns) : t = [] ∧ ns = [] ∨ g.Derives sp e t ns := by
  cases h with
  | absent => exact .inl ⟨rfl, rfl⟩
  | present h => exact .inr h

/-- In a tight rule a repetition takes no other characters than what it repeats. -/
theorem forall_mem_of_tight_star {P : Char → Prop}
    (he : ∀ {t : List Char} {ns : List (Node ρ)}, g.Derives .tight e t ns → ∀ c ∈ t, P c)
    (h : g.Derives .tight (.star e) t ns) : ∀ c ∈ t, P c := by
  generalize hsp : Spacing.tight = sp at h
  generalize hstar : Expr.star e = e' at h
  induction h with
  | more h hu hs _ ih =>
      subst hsp
      cases hstar
      obtain rfl : _ = [] := hu
      intro c hc
      rcases List.mem_append.mp hc with hc | hc
      · exact he h c hc
      · exact ih rfl rfl c hc
  | done => exact fun c hc => by cases hc
  | lit | one | rule | seq | left | right | absent | present | notAhead | atEnd => cases hstar

theorem forall_mem_of_tight_plus {P : Char → Prop}
    (he : ∀ {t : List Char} {ns : List (Node ρ)}, g.Derives .tight e t ns → ∀ c ∈ t, P c)
    (h : g.Derives .tight (.plus e) t ns) : ∀ c ∈ t, P c := by
  obtain ⟨u, w, ms, ms', rfl, hfirst, hrest⟩ := h.exists_of_tight_seq
  intro c hc
  rcases List.mem_append.mp hc with hc | hc
  · exact he hfirst c hc
  · exact forall_mem_of_tight_star he hrest c hc

theorem test_of_mem_of_one (h : g.Derives sp (.one p) t ns) : ∀ c ∈ t, p.test c = true := by
  obtain ⟨d, hd, rfl, -⟩ := h.exists_of_one
  intro c hc
  rwa [List.mem_singleton.mp hc]

theorem forall_of_tight_star (h : g.Derives .tight (.star (.one p)) t ns) :
    ∀ c ∈ t, p.test c = true := forall_mem_of_tight_star test_of_mem_of_one h

theorem forall_of_tight_plus (h : g.Derives .tight (.plus (.one p)) t ns) :
    t ≠ [] ∧ ∀ c ∈ t, p.test c = true := by
  refine ⟨?_, forall_mem_of_tight_plus test_of_mem_of_one h⟩
  obtain ⟨u, w, ms, ms', rfl, hfirst, -⟩ := h.exists_of_tight_seq
  obtain ⟨c, -, rfl, -⟩ := hfirst.exists_of_one
  exact List.cons_ne_nil _ _

end Grammar.Derives

/-! ## What is matched is derived -/

section Soundness

variable {g : Grammar ρ}

theorem derives_repeated {sp : Spacing} {e : Expr ρ} {step : List Char → Option (Match ρ)}
    (hstep : ∀ s m, step s = some m → g.Derives sp e m.taken m.nodes) (bound : Nat)
    (s : List Char) : ∃ u v, (repeated step sp bound s).taken = u ++ v ∧ Between sp u ∧
      g.Derives sp (.star e) v (repeated step sp bound s).nodes := by
  fun_induction repeated step sp bound s with
  | case1 s => exact ⟨[], [], rfl, between_nil sp, .done⟩
  | case2 bound s gap hnone => exact ⟨[], [], rfl, between_nil sp, .done⟩
  | case3 bound s first m hm ih =>
      obtain ⟨u, v, htaken, hu, hv⟩ := ih
      refine ⟨first.taken, m.taken ++ (u ++ v), ?_, between_gap sp s, ?_⟩
      · simp only [Match.taken_append, htaken]
      · have hnodes : first.nodes = [] := by
          simp only [first]
          cases sp <;> rfl
        simp only [Match.nodes_append, hnodes, List.nil_append]
        exact .more (hstep _ _ hm) hu hv

/-- What an expression matches is derived, if this holds of the rules. -/
theorem Expr.derives_run {call : ρ → List Char → Option (Match ρ)}
    (hcall : ∀ {sp r s m}, call r s = some m → g.Derives sp (.rule r) m.taken m.nodes)
    {sp : Spacing} {e : Expr ρ} {s : List Char} {m : Match ρ} (h : e.run call sp s = some m) :
    g.Derives sp e m.taken m.nodes := by
  induction e generalizing s m with
  | lit t =>
      obtain ⟨rest, -, rfl⟩ := Option.map_eq_some_iff.mp h
      exact .lit t
  | one p =>
      cases s with
      | nil => cases h
      | cons c s =>
          obtain ⟨hc, rfl⟩ : p.test c = true ∧ _ = m := by simpa [run] using h
          exact .one hc
  | rule r => exact hcall h
  | seq a b iha ihb =>
      simp only [run, bind, Option.bind_eq_some_iff, pure, Option.some.injEq] at h
      obtain ⟨m, hm, n, hn, rfl⟩ := h
      have hnodes : (gap sp m.rest : Match ρ).nodes = [] := by cases sp <;> rfl
      simp only [Match.taken_append, Match.nodes_append, hnodes, List.nil_append]
      exact .seq (iha hm) (between_gap sp m.rest) (ihb hn)
  | alt a b iha ihb =>
      cases ha : run call sp a s with
      | none => exact .right (ihb (by simpa [run, ha] using h))
      | some m' =>
          obtain rfl : m' = m := by simpa [run, ha] using h
          exact .left (iha ha)
  | opt e ih =>
      obtain rfl := Option.some.inj h
      cases he : run call sp e s with
      | none => exact .absent
      | some m => exact .present (ih he)
  | star e ih =>
      cases he : run call sp e s with
      | none =>
          obtain rfl : Match.nothing s = m := by simpa [run, he] using h
          exact .done
      | some m' =>
          obtain rfl : m' ++ repeated (run call sp e) sp m'.rest.length m'.rest = m := by
            simpa [run, he] using h
          have hstep : ∀ s m, run call sp e s = some m → g.Derives sp e m.taken m.nodes := by
            intro s m hm
            exact ih hm
          obtain ⟨u, v, htaken, hu, hv⟩ := derives_repeated hstep m'.rest.length m'.rest
          simp only [Match.taken_append, Match.nodes_append, htaken]
          exact .more (ih he) hu hv
  | notAhead e ih =>
      cases he : run call sp e s with
      | none =>
          obtain rfl : Match.nothing s = m := by simpa [run, he] using h
          exact .notAhead
      | some m' => simp [run, he] at h
  | atEnd =>
      obtain ⟨-, rfl⟩ : s = [] ∧ Match.nothing s = m := by simpa [run] using h
      exact .atEnd

theorem Grammar.derives_apply {depth : Nat} {sp : Spacing} {r : ρ} {s : List Char} {m : Match ρ}
    (h : g.apply depth r s = some m) : g.Derives sp (.rule r) m.taken m.nodes := by
  induction depth generalizing sp r s m with
  | zero => cases h
  | succ depth ih =>
      obtain ⟨n, hn, rfl⟩ := Option.map_eq_some_iff.mp h
      rw [Match.nodes_wrap, Match.taken_wrap]
      exact .rule (Expr.derives_run ih hn)

/-- A rule that matches a whole text derives it. -/
theorem Grammar.derives_whole? {sp : Spacing} {r : ρ} {s : List Char} {node : Node ρ}
    (h : g.whole? r s = some node) : g.Derives sp (.rule r) s [node] := by
  unfold Grammar.whole? at h
  split at h
  next taken _ hm =>
    obtain rfl := Option.some.inj h
    obtain rfl : taken = s := by
      have hsplit := g.split_apply _ _ hm
      exact (List.append_nil taken).symm.trans hsplit
    exact Grammar.derives_apply hm
  next => cases h

end Soundness

/-! ## Nodes that a grammar makes -/

/-- A node with the text and the parts that its rule may give it. -/
def Grammar.Makes (g : Grammar ρ) : Node ρ → Prop
  | .mk r t parts =>
    ∃ ns, g.Derives (g.kind r).spacing (g.body r) t ns ∧ parts = (g.kind r).shown ns

namespace Grammar

variable {g : Grammar ρ}

theorem Derives.makes {sp : Spacing} {e : Expr ρ} {t : List Char} {ns : List (Node ρ)}
    (h : g.Derives sp e t ns) : ∀ n ∈ ns, g.Makes n := by
  induction h with
  | lit | one | absent | done | notAhead | atEnd => exact fun n hn => by cases hn
  | rule h ih =>
      intro n hn
      obtain rfl := List.mem_singleton.mp hn
      exact ⟨_, h, rfl⟩
  | seq ha hu hb iha ihb =>
      intro n hn
      rcases List.mem_append.mp hn with hn | hn
      · exact iha n hn
      · exact ihb n hn
  | left h ih => exact ih
  | right h ih => exact ih
  | present h ih => exact ih
  | more he hu hs ihe ihs =>
      intro n hn
      rcases List.mem_append.mp hn with hn | hn
      · exact ihe n hn
      · exact ihs n hn

theorem mem_of_mem_shown {kind : RuleKind} {n : Node ρ} {ns : List (Node ρ)}
    (h : n ∈ kind.shown ns) : n ∈ ns := by
  cases kind with
  | token => cases h
  | phrase | compound => exact h

/-- The parts of a node that the grammar makes are nodes that the grammar makes. -/
theorem Makes.of_mem_parts {r : ρ} {t : List Char} {parts : List (Node ρ)}
    (h : g.Makes (.mk r t parts)) : ∀ p ∈ parts, g.Makes p := by
  obtain ⟨ns, hns, rfl⟩ := h
  intro p hp
  exact hns.makes p (mem_of_mem_shown hp)

end Grammar

end PictureTree
