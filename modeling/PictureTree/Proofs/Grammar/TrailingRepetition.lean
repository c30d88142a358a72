/-
# `Proofs.Grammar.TrailingRepetition` — repetitions in a text with one line more

The laws of `Proofs.Grammar.Trailing` for repetitions, and for lists whose
parts stand between separators.
-/
import PictureTree.Proofs.Grammar.Trailing

namespace PictureTree

variable {ρ : Type}

namespace Trailer

variable {T : Trailer ρ} {call : ρ → List Char → Option (Match ρ)} {sp : Spacing} {a b e : Expr ρ}

/-! ## Repetitions -/

/-- What holds behind every repetition holds behind all of them. -/
theorem gap_rest_repetitions {Q : List Char → Prop} {step : List Char → Option (Match ρ)}
    (hconsumes : Consumes step)
    (hstep : ∀ {s m}, Q s → step s = some m → Q (gap sp m.rest : Match ρ).rest) {s : List Char}
    (hs : Q (gap sp s : Match ρ).rest) :
    Q (gap sp (repetitions step sp s).rest : Match ρ).rest := by
  induction hn : s.length using Nat.strongRecOn generalizing s with
  | ind n ih =>
      cases hm : step (gap sp s : Match ρ).rest with
      | none =>
          rw [repetitions_of_none hm]
          exact hs
      | some m =>
          rw [repetitions_of_some hconsumes hm]
          exact ih m.rest.length (hn ▸ hconsumes.length_rest_lt hm) (hstep hs hm) rfl

/-- Repetitions of a tied part leave the line: the gap in front of a part that
does not come is not taken. -/
theorem repetitions_append_line {step : List Char → Option (Match ρ)} (hsplits : Splits step)
    (hconsumes : Consumes step)
    (htied : ∀ {u}, T.Plain u → Tied T.line (step u) (step (u ++ T.line)))
    (hfinal : sp = .loose → step [] = none ∧ step T.word = none) {u : List Char}
    (hu : T.Plain u) :
    repetitions step sp (u ++ T.line) = (repetitions step sp u).followedBy T.line := by
  induction hn : u.length using Nat.strongRecOn generalizing u with
  | ind n ih =>
      have hplain : T.Plain (gap sp u : Match ρ).rest := hu.of_suffix (gap_suffix sp u)
      rcases gap_append_line (T := T) sp u with ⟨hgap, -⟩ | ⟨hsp, hend, hword⟩
      · have htied := htied hplain
        rw [Tied] at htied
        cases hm : step (gap sp u : Match ρ).rest with
        | none =>
            rw [hm] at htied
            rw [repetitions_of_none hm, repetitions_of_none (by rw [hgap]; exact htied)]
            rfl
        | some m =>
            rw [hm] at htied
            have hrest : m.rest <:+ u := List.IsSuffix.trans ⟨_, hsplits hm⟩ (gap_suffix sp u)
            rw [repetitions_of_some hconsumes hm,
              repetitions_of_some hconsumes (by rw [hgap]; exact htied), hgap,
              Match.rest_followedBy,
              ih m.rest.length (hn ▸ hconsumes.length_rest_lt hm) (hu.of_suffix hrest) rfl]
            rfl
      · obtain ⟨hx, hy⟩ := hfinal hsp
        have hx' : repetitions step sp u = .nothing u :=
          repetitions_of_none (by rw [hend]; exact hx)
        rw [hx', repetitions_of_none (by rw [hword]; exact hy)]
        rfl

theorem Settled.repetitions_append_line {Q : List Char → Prop}
    {step : List Char → Option (Match ρ)} (hnil : Q []) (hword : Q T.word)
    (hsettled : T.Settled Q Q sp step) (hsplits : Splits step) (hconsumes : Consumes step)
    (hstep : ∀ {s m}, Q s → step s = some m → Q (gap sp m.rest : Match ρ).rest) {u : List Char}
    (hu : T.Plain u) :
    repetitions step sp (u ++ T.line) = (repetitions step sp u).followedBy T.line ∨
      (Q (gap sp (repetitions step sp u).rest : Match ρ).rest ∧
        Q (gap sp (repetitions step sp (u ++ T.line)).rest : Match ρ).rest) := by
  induction hn : u.length using Nat.strongRecOn generalizing u with
  | ind n ih =>
      have hplain : T.Plain (gap sp u : Match ρ).rest := hu.of_suffix (gap_suffix sp u)
      rcases gap_append_line (T := T) sp u with ⟨hgap, -⟩ | ⟨-, hend, hends⟩
      · have hrest : (gap sp (u ++ T.line) : Match ρ).rest
            = (gap sp u : Match ρ).rest ++ T.line := by
          rw [hgap]
          rfl
        rcases hsettled.outcome hplain with htied | ⟨⟨m, hm, hs⟩, k, hk, hs'⟩ | ⟨hs, hs'⟩
        · rw [Tied] at htied
          cases hm : step (gap sp u : Match ρ).rest with
          | none =>
              rw [hm] at htied
              rw [repetitions_of_none hm, repetitions_of_none (by rw [hrest]; exact htied)]
              exact .inl rfl
          | some m =>
              rw [hm] at htied
              have hsuffix : m.rest <:+ u := List.IsSuffix.trans ⟨_, hsplits hm⟩ (gap_suffix sp u)
              rw [repetitions_of_some hconsumes hm,
                repetitions_of_some hconsumes (by rw [hrest]; exact htied), hgap]
              rcases ih m.rest.length (hn ▸ hconsumes.length_rest_lt hm) (hu.of_suffix hsuffix) rfl
                with h | h
              · refine .inl ?_
                simp only [Match.rest_followedBy, h]
                rfl
              · exact .inr h
        · rw [repetitions_of_some hconsumes hm,
            repetitions_of_some hconsumes (by rw [hrest]; exact hk)]
          exact .inr ⟨gap_rest_repetitions hconsumes hstep hs,
            gap_rest_repetitions hconsumes hstep hs'⟩
        · exact .inr ⟨gap_rest_repetitions hconsumes hstep hs,
            gap_rest_repetitions hconsumes hstep (hrest ▸ hs')⟩
      · exact .inr ⟨gap_rest_repetitions hconsumes hstep (hend ▸ hnil),
          gap_rest_repetitions hconsumes hstep (hends ▸ hword)⟩

theorem run_star_of_none {s : List Char} (h : e.run call sp s = none) :
    (Expr.star e).run call sp s = some (.nothing s) := by
  rw [Expr.run_star, h]

theorem run_star_of_some {s : List Char} {m : Match ρ} (h : e.run call sp s = some m) :
    (Expr.star e).run call sp s
      = some (m ++ repetitions (e.run call sp) sp m.rest) := by
  rw [Expr.run_star, h]

theorem tied_star (hcall : ∀ r, Splits (call r)) (hconsumes : Consumes (e.run call sp))
    (htied : ∀ {u}, T.Plain u → Tied T.line (e.run call sp u) (e.run call sp (u ++ T.line)))
    (hfinal : sp = .loose → e.run call sp [] = none ∧ e.run call sp T.word = none)
    {u : List Char} (hu : T.Plain u) :
    Tied T.line ((Expr.star e).run call sp u) ((Expr.star e).run call sp (u ++ T.line)) := by
  have hsplits : Splits (e.run call sp) := Expr.split_run hcall sp e
  have hfirst := htied hu
  rw [Tied] at hfirst
  cases hm : e.run call sp u with
  | none =>
      rw [hm] at hfirst
      rw [run_star_of_none hm, run_star_of_none hfirst]
      exact tied_some _
  | some m =>
      rw [hm] at hfirst
      rw [run_star_of_some hm, run_star_of_some hfirst, Match.rest_followedBy,
        repetitions_append_line hsplits hconsumes htied hfinal (hu.of_suffix ⟨_, hsplits hm⟩)]
      exact tied_some _

theorem Firm.star (hcall : ∀ r, Splits (call r)) (he : T.Firm (e.run call sp))
    (hconsumes : Consumes (e.run call sp)) : T.Exact ((Expr.star e).run call sp) where
  outcome hu := .inl (tied_star hcall hconsumes he.tied (fun _ => he.final) hu)
  final := by
    rw [run_star_of_none he.final.1, run_star_of_none he.final.2]
    exact .inr ends_nothing

theorem Settled.star {P Q : List Char → Prop} (hnil : Q []) (hword : Q T.word)
    (hcall : ∀ r, Splits (call r)) (he : T.Settled Q Q sp (e.run call sp))
    (hconsumes : Consumes (e.run call sp))
    (hgap : ∀ {s}, Q s → Q (gap sp s : Match ρ).rest)
    (hstep : ∀ {s m}, Q s → e.run call sp s = some m → Q (gap sp m.rest : Match ρ).rest) :
    T.Settled P Q sp ((Expr.star e).run call sp) := by
  have hsplits : Splits (e.run call sp) := Expr.split_run hcall sp e
  have hsome : ∀ {s m}, e.run call sp s = some m → Q (gap sp m.rest : Match ρ).rest →
      Leaves Q sp ((Expr.star e).run call sp s) := fun hm hs =>
    ⟨_, run_star_of_some hm, gap_rest_repetitions hconsumes hstep hs⟩
  have hstart : ∀ {s}, Q s → Leaves Q sp ((Expr.star e).run call sp s) := fun {s} hs => by
    cases hm : e.run call sp s with
    | none => exact ⟨_, run_star_of_none hm, hgap hs⟩
    | some m => exact hsome hm (hstep hs hm)
  refine ⟨fun {u} hu => ?_⟩
  rcases he.outcome hu with htied | ⟨⟨m, hm, hs⟩, n, hn, hs'⟩ | ⟨hs, hs'⟩
  · rw [Tied] at htied
    cases hm : e.run call sp u with
    | none =>
        rw [hm] at htied
        rw [run_star_of_none hm, run_star_of_none htied]
        exact .inl (tied_some _)
    | some m =>
        rw [hm] at htied
        rw [run_star_of_some hm, run_star_of_some htied, Match.rest_followedBy]
        rcases he.repetitions_append_line hnil hword hsplits hconsumes hstep
          (hu.of_suffix ⟨_, hsplits hm⟩) with h | ⟨hs, hs'⟩
        · rw [h]
          exact .inl (tied_some _)
        · exact .inr (.inl ⟨⟨_, rfl, hs⟩, _, rfl, hs'⟩)
  · exact .inr (.inl ⟨hsome hm hs, hsome hn hs'⟩)
  · exact .inr (.inl ⟨hstart hs, hstart hs'⟩)

theorem Steady.star (hcall : ∀ r, Splits (call r)) (he : T.Steady sp (e.run call sp))
    (hconsumes : Consumes (e.run call sp)) : T.Steady sp ((Expr.star e).run call sp) :=
  Settled.star lost_nil lost_word hcall he hconsumes
    (fun hs => lost_of_suffix hs (gap_suffix sp _)) fun hs hm =>
      lost_of_some (Expr.split_run hcall sp e) sp hs hm

/-! ## Lists -/

/-- Parts between separators; a separator may follow the last part. -/
abbrev listOf (c : Char) (e : Expr ρ) : Expr ρ :=
  .seq (.opt (.seq e (.star (.seq (.lit [c]) e)))) (.opt (.lit [c]))

/-- A text that is lost, or lost behind a separator. -/
def LostBehind (T : Trailer ρ) (c : Char) (s : List Char) : Prop :=
  T.lost.holds s ∨ ∃ r, s = c :: r ∧ T.lost.holds (gap .loose r : Match ρ).rest

section Lists

variable {c : Char} (hcall : ∀ r, Splits (call r))

theorem run_lit_cons (r : List Char) :
    (Expr.lit [c]).run call sp (c :: r) = some ⟨[c], r, []⟩ := by
  simp [Expr.run, Text.after?]

theorem run_lit_of_some {s : List Char} {m : Match ρ} (h : (Expr.lit [c]).run call sp s = some m) :
    s = c :: m.rest := by
  obtain ⟨r, hr, rfl⟩ := Option.map_eq_some_iff.mp h
  exact Text.after?_eq_some.mp hr

include hcall

theorem LostBehind.lost_of_run_seq {s : List Char} (hs : T.LostBehind c s) {m : Match ρ}
    (hm : (Expr.seq (.lit [c]) e).run call .loose s = some m) :
    T.lost.holds (gap .loose m.rest : Match ρ).rest := by
  rcases hs with hs | ⟨r, rfl, hr⟩
  · exact lost_of_some (Expr.split_run hcall .loose _) .loose hs hm
  · rw [run_seq_of_some (run_lit_cons r)] at hm
    obtain ⟨n, hn, rfl⟩ := Option.map_eq_some_iff.mp hm
    rw [rest_join]
    exact lost_of_some (Expr.split_run hcall .loose e) .loose hr hn

theorem LostBehind.lost_of_run_opt {s : List Char} (hs : T.LostBehind c s) {m : Match ρ}
    (hm : (Expr.opt (.lit [c])).run call .loose s = some m) :
    T.lost.holds (gap .loose m.rest : Match ρ).rest := by
  rcases hs with hs | ⟨r, rfl, hr⟩
  · exact lost_of_some (Expr.split_run hcall .loose _) .loose hs hm
  · rw [run_opt_of_some (run_lit_cons r)] at hm
    obtain rfl := Option.some.inj hm
    exact hr

theorem consumes_seq_lit : Consumes ((Expr.seq (.lit [c]) e).run call sp) := by
  intro s m hm
  cases hlit : (Expr.lit [c]).run call sp s with
  | none => rw [run_seq_of_none hlit] at hm; cases hm
  | some k =>
      rw [run_seq_of_some hlit] at hm
      obtain ⟨n, hn, rfl⟩ := Option.map_eq_some_iff.mp hm
      have hgap := length_rest_gap_le (ρ := ρ) sp k.rest
      have hsplit := congrArg List.length (Expr.split_run hcall sp e hn)
      have hstart := congrArg List.length (run_lit_of_some hlit)
      rw [List.length_append] at hsplit
      rw [List.length_cons] at hstart
      rw [rest_join]
      omega

variable (hspace : isSpace c = false) (hpercent : (c == '%') = false)
include hspace hpercent

/-- A part behind a separator: a text where it sees the line is lost behind that
separator. -/
theorem Steady.separated (he : T.Steady .loose (e.run call .loose)) :
    T.Settled (T.LostBehind c) (T.LostBehind c) .loose
      ((Expr.seq (.lit [c]) e).run call .loose) := by
  have hline : '\n' ∉ [c] := by
    rintro h
    obtain rfl := List.mem_singleton.mp h
    cases hspace
  refine ⟨fun {u} hu => ?_⟩
  rcases run_seq_of_tied (b := e) hcall hu (tied_lit hline u) with
    ⟨hx, hy⟩ | ⟨m, v, ⟨hm, rfl⟩, hplain, hgap, hx, hy⟩ | ⟨m, n, hsp, hm, hend, -, hx, hy⟩
  · rw [hx, hy]
    exact .inl tied_none
  · have hmono : ∀ {x : Option (Match ρ)}, Leaves T.lost.holds .loose x →
        Leaves (T.LostBehind c) .loose x := fun ⟨k, hk, h⟩ => ⟨k, hk, .inl h⟩
    rw [hx, hy]
    rcases he.outcome hplain with h | ⟨hxs, hys⟩ | ⟨hs, hs'⟩
    · exact .inl (tied_join hgap h)
    · exact .inr (.inl ⟨hmono (hxs.map_join m), hmono (hys.map_join _)⟩)
    · refine .inr (.inr ⟨.inr ⟨_, run_lit_of_some hm, hs⟩, .inr ⟨m.rest ++ T.line, ?_, ?_⟩⟩)
      · rw [run_lit_of_some hm]
        rfl
      · rw [hgap]
        exact hs'
  · refine .inr (.inr ⟨.inr ⟨_, run_lit_of_some hm, hend ▸ lost_nil⟩,
      .inr ⟨m.rest ++ T.line, ?_, ?_⟩⟩)
    · rw [run_lit_of_some hm]
      rfl
    · rw [gap_line_of_nil hend]
      exact lost_word

/-- A list is steady if its parts are. -/
theorem Steady.listOf (hletter : c.isAlpha = false) (he : T.Steady .loose (e.run call .loose)) :
    T.Steady .loose ((Trailer.listOf c e).run call .loose) := by
  have hnil : T.LostBehind c [] := .inl lost_nil
  have hword : T.LostBehind c T.word := .inl lost_word
  have hgap : ∀ {s}, T.LostBehind c s → T.LostBehind c (gap .loose s : Match ρ).rest := by
    rintro s (hs | ⟨r, rfl, hr⟩)
    · exact .inl (lost_of_suffix hs (gap_suffix .loose s))
    · have : (gap .loose (c :: r) : Match ρ).rest = c :: r := by
        simp [gap, splitTrivia, hspace, hpercent]
      exact .inr ⟨r, this, hr⟩
  have htail : T.Settled T.lost.holds (T.LostBehind c) .loose
      ((Expr.star (.seq (.lit [c]) e)).run call .loose) :=
    Settled.star hnil hword hcall (he.separated hcall hspace hpercent) (consumes_seq_lit hcall)
      hgap fun hs hm => .inl (hs.lost_of_run_seq hcall hm)
  have hparts : T.Settled T.lost.holds (T.LostBehind c) .loose
      ((Expr.seq e (.star (.seq (.lit [c]) e))).run call .loose) :=
    Settled.seq hcall lost_nil lost_word he htail
      (fun s s' => by rw [Expr.run_star, Expr.run_star]; rfl)
      fun hs hm => .inl (lost_of_some (Expr.split_run hcall .loose _) .loose hs hm)
  have hlit : T.Firm ((Expr.lit [c]).run call .loose) := by
    refine Firm.lit (fun h => ?_) List.mem_cons_self hletter
    obtain rfl := List.mem_singleton.mp h
    cases hspace
  exact Settled.seq hcall hnil hword hparts.opt (hlit.opt.settled lost_nil lost_word .loose)
    (fun _ _ => rfl) fun hs hm => hs.lost_of_run_opt hcall hm

end Lists

end Trailer

end PictureTree
