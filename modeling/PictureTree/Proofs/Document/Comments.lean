/-
# `Proofs.Document.Comments` — comments inside of commands

A shape command is read from its pieces, and from nothing else: a source is a shape
command if and only if it consists of the pieces of a written one, with a gap in front of
each (`ofSource?_eq_shape_iff`).  What stands in the gaps does not matter, so a comment
between two pieces is not seen.

A piece is taken at once.  Arrows with their braces are one, a value with the comma or
bracket behind it, and the function of a plot with its braces, and a comment in there
belongs to the text.
-/
import PictureTree.Proofs.Document.Recognized

namespace PictureTree

open PictureTree.Expr Rule Trailer

/-- A source is a shape command if and only if it consists of the pieces of a written one, and a
comment between two pieces of such a one is not seen: with it and without it the source is the
command, with its operands, and the source behind it. -/
theorem ofSource?_comment (c : ShapeCommand) (a : Arguments) :
    (∀ source : String, Item.ofSource? source = some [.command (.shape c a)] ↔
      ∃ w : Written, w.command = c ∧ w.arguments = a ∧ Ahead [] w.pieces source.toList) ∧
    ∀ (w : Written) (x y : List (List Char)) (s t comment tail : String),
      w.command = c → w.arguments = a → w.pieces = x ++ y →
      Spread x s.toList → Spread y t.toList →
      (∀ c ∈ comment.toList, isLineEnd c = false) → w.Ends tail.toList →
      Item.ofSource? (s ++ "%" ++ comment ++ "\n" ++ t ++ tail)
          = (Item.ofSource? tail).map ([.command (.shape c a)] ++ ·) ∧
        Item.ofSource? (s ++ t ++ tail)
          = (Item.ofSource? tail).map ([.command (.shape c a)] ++ ·) := by
  refine ⟨fun _ => ofSource?_eq_shape_iff, ?_⟩
  rintro w x y s t comment tail rfl rfl hw hs ht hcomment htail
  constructor
  · refine w.ofSource?_eq ?_ htail
    have hspread := (hs.append_comment ht hcomment).ahead tail.toList
    rw [← hw] at hspread
    simpa using hspread
  · refine w.ofSource?_eq ?_ htail
    have hspread := (hs.append ht).ahead tail.toList
    rw [← hw] at hspread
    simpa using hspread

/-- A dot with a setting. -/
def Written.redDot : Written where
  named := .dot
  operands :=
    [.params [⟨"linecolor".toList, some "red".toList,
        ⟨'l', "inecolor".toList, rfl, rfl, List.all_eq_true.mp rfl⟩,
        fun _ hv => Option.some.inj hv ▸
          .char (by decide) (.char (by decide) (.char (by decide) .nil))⟩] false,
      .coord (.cartesian ⟨['2'], some .cm, .unsigned (.whole (List.all_eq_true.mp rfl) nofun)⟩
        ⟨['1'], none, .unsigned (.whole (List.all_eq_true.mp rfl) nofun)⟩)]
  fills := .absent (.present rfl (.present rfl .nil))

/-- A comment behind the bracket of the settings, with braces that are not seen either. -/
theorem ofSource?_comment_redDot :
    Item.ofSource? ("\\psdot [" ++ "%" ++ " \x7d \x7b" ++ "\n" ++ "linecolor=red](2cm,1)" ++ " a")
        = some [.command (.shape .dot ⟨false, [⟨"linecolor", "red"⟩], none,
            [.cartesian ⟨.ofNat 2, some .cm⟩ ⟨.ofNat 1, none⟩], []⟩), .command (.text "a")] ∧
      Item.ofSource? ("\\psdot [" ++ "linecolor=red](2cm,1)" ++ " a")
        = some [.command (.shape .dot ⟨false, [⟨"linecolor", "red"⟩], none,
            [.cartesian ⟨.ofNat 2, some .cm⟩ ⟨.ofNat 1, none⟩], []⟩), .command (.text "a")] := by
  have hpieces : Written.redDot.pieces = ["\\psdot".toList, ['[']]
      ++ ["linecolor".toList, ['='], "red]".toList, ['('], "2cm".toList, [','], ['1'], [')']] := by
    decide
  have hs : Spread ["\\psdot".toList, ['[']] "\\psdot [".toList := by
    have h : Spread ["\\psdot".toList, ['[']] ([] ++ ("\\psdot".toList ++ ([' '] ++ (['['] ++ [])))) :=
      .cons .nil ⟨_, _, rfl, rfl⟩ (.cons (.space rfl .nil) ⟨_, _, rfl, rfl⟩ (.nil .nil))
    exact h
  have ht : Spread ["linecolor".toList, ['='], "red]".toList, ['('], "2cm".toList, [','], ['1'], [')']]
      "linecolor=red](2cm,1)".toList :=
    .flatten (by decide)
  have hcomment : ∀ c ∈ " \x7d \x7b".toList, isLineEnd c = false := by simp [isLineEnd]
  have htail : Written.redDot.Ends " a".toList := by
    refine ⟨?_, ?_⟩ <;> decide
  have harguments : Written.redDot.arguments = ⟨false, [⟨"linecolor", "red"⟩], none,
      [.cartesian ⟨.ofNat 2, some .cm⟩ ⟨.ofNat 1, none⟩], []⟩ := by decide
  have hword : Item.ofSource? " a" = some [.command (.text "a")] := by cbv
  have h := (ofSource?_comment .dot _).2 Written.redDot _ _ _ _ _ _ rfl harguments hpieces hs ht
    hcomment htail
  rw [hword] at h
  exact h

/-- Between the braces of arrows a comment is read as part of the arrows. -/
theorem ofSource?_comment_in_arrows :
    Item.ofSource? ("\\psline\x7b" ++ "%x\n" ++ "->\x7d(0,0)")
        = some [.command (.shape .line ⟨false, [], some "%x\n->",
            [.cartesian ⟨.ofNat 0, none⟩ ⟨.ofNat 0, none⟩], []⟩)] ∧
      Item.ofSource? ("\\psline\x7b" ++ "->\x7d(0,0)")
        = some [.command (.shape .line ⟨false, [], some "->",
            [.cartesian ⟨.ofNat 0, none⟩ ⟨.ofNat 0, none⟩], []⟩)] := by
  constructor
  · cbv
  · cbv

/-- Behind a value a comment is read as part of the value. -/
example : Item.ofSource? ("\\psdot[linecolor=red" ++ "%x\n" ++ "]")
    = some [.command (.shape .dot ⟨false, [⟨"linecolor", "red%x"⟩], none, [], []⟩)] := by
  cbv

end PictureTree
