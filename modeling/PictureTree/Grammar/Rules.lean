/-
# `Grammar.Rules` — the grammar of the notation

PSTricks drawing commands stand in running LaTeX text.  The grammar knows a
subset of them; whatever is none of them is text, a word or an unknown macro
at a time, so that only unbalanced braces and broken pictures fail to parse.
-/
import PictureTree.Grammar.Expr
import PictureTree.Length

namespace PictureTree

/-- The rules of the notation. -/
inductive Rule where
  -- documents and scopes
  | document | picture | body | block | custom | customBody
  | place | refPoint | refName | placeAngle | angleSpec | turn
  -- settings and shapes
  | settings | frame | diamond | triangle | ellipse | circle | disk | wedge
  | arc | arcName | line | segment | polygon | bezier | dot | dots | grid | axes
  | plot | curve | curveName
  -- path commands
  | moveTo | lineTo | lineBy | curveTo | curveBy | closePath
  -- text, colours and pictures
  | framedBox | boxName | defineColor | newColor | newColorName | useColor | textColor
  | colorSpec | colorName | colorModel | colorValues | include | filePath
  -- arguments
  | star | params | param | paramKey | paramValue | arrows | arrowSpec
  | coord | cartesianPair | polarPair | argument | quantity | number | unit
  | bracedText | text
deriving DecidableEq, Repr

namespace Rule

/-- Which rules are tight, and which of those show their parts. -/
def kind : Rule → RuleKind
  | .refName | .angleSpec | .arcName | .curveName | .boxName | .newColorName
  | .colorName | .colorModel | .colorValues | .filePath | .paramKey | .paramValue
  | .arrowSpec | .number | .unit | .bracedText | .text => .token
  | .quantity => .compound
  | _ => .phrase

/-! ## Pieces that several rules share -/

open PictureTree.Expr

/-- An optional star. -/
def star? : Expr Rule := .opt (.rule .star)

/-- Optional parameters in brackets. -/
def params? : Expr Rule := .opt (.rule .params)

/-- Optional arrows. -/
def arrows? : Expr Rule := .opt (.rule .arrows)

/-- An optional coordinate. -/
def coord? : Expr Rule := .opt (.rule .coord)

/-- An expression in braces. -/
def braced (e : Expr Rule) : Expr Rule := seqs [word "\x7b", e, word "\x7d"]

/-- Anything but a brace. -/
def noBrace : Expr Rule := .one (.except ['\x7b', '\x7d'])

/-- Blanks, in a tight rule. -/
def spaces : Expr Rule := .star (.one (.among [' ', '\t', '\r', '\n']))

/-- The rules of commands, in the order in which they are tried. -/
def commands : List Rule :=
  [.settings, .frame, .diamond, .triangle, .ellipse, .circle, .disk, .wedge, .arc, .line,
   .segment, .polygon, .bezier, .dots, .dot, .grid, .axes, .plot, .curve, .custom, .place,
   .turn, .framedBox, .defineColor, .newColor, .useColor, .textColor, .include, .block]

/-- The rules of path commands, in the order in which they are tried. -/
def pathCommands : List Rule := [.moveTo, .lineTo, .lineBy, .curveTo, .curveBy, .closePath]

/-- A command, if nothing else. -/
def command : Expr Rule := alts (commands.map .rule)

/-- What a document and most scopes consist of. -/
def item : Expr Rule := alts [.rule .picture, command, .rule .text]

/-- What a custom path consists of. -/
def customItem : Expr Rule := alts [alts (pathCommands.map .rule), command, .rule .text]

/-- The parameters of a list; a comma may follow the last one. -/
def paramList : Expr Rule :=
  .seq
    (.opt (.seq (.rule .param) (.star (.seq (word ",") (.rule .param)))))
    (.opt (word ","))

/-- The glyphs of one line end. -/
def arrowEnd : Expr Rule := .star (.one (.among "<>|*[]()ocC".toList))

/-- The markers of a picture, which are never text. -/
def reserved : Expr Rule :=
  alts [
    seqs [word "\\end", spaces, word "\x7b", spaces, word "pspicture"],
    name "\\endpspicture",
    seqs [word "\\begin", spaces, word "\x7b", spaces, word "pspicture"]]

/-- The marker of an environment. -/
def envMarker : Expr Rule :=
  seqs [alts [word "\\begin", word "\\end"], word "\x7b", plus (.one .letter), .opt (word "*"),
    word "\x7d"]

/-- A macro with letters for its name, or a single character behind a backslash. -/
def macroText : Expr Rule :=
  .seq (word "\\") (.alt (.seq (plus (.one .letter)) (.opt (word "*"))) (.one .any))

/-- A run of characters that mean nothing to the notation. -/
def plainWord : Expr Rule :=
  plus (.one (.except [' ', '\t', '\r', '\n', '\\', '\x7b', '\x7d', '%']))

/-! ## The rules -/

/-- The expression of a rule. -/
def expr : Rule → Expr Rule
  | .document => seqs [.lit [], .star item, .atEnd]
  | .picture => .alt
      (seqs [word "\\begin", word "\x7b", word "pspicture", star?, word "\x7d", params?, coord?,
        coord?, .rule .body, word "\\end", word "\x7b", word "pspicture", .opt (word "*"),
        word "\x7d"])
      (seqs [name "\\pspicture", star?, params?, coord?, coord?, .rule .body,
        name "\\endpspicture"])
  | .body => .star item
  | .block => braced (.rule .body)
  | .custom => seqs [name "\\pscustom", star?, params?, braced (.rule .customBody)]
  | .customBody => .star customItem
  | .place => seqs [name "\\rput", star?, .opt (.rule .refPoint), .opt (.rule .placeAngle),
      .rule .coord, braced (.rule .body)]
  | .refPoint => seqs [word "[", .rule .refName, word "]"]
  | .refName => .star (.one (.except [']']))
  | .placeAngle => braced (.rule .angleSpec)
  | .angleSpec => .seq (.opt (word "*"))
      (.alt (.rule .number) (.one (.among "ULDRNWSE".toList)))
  | .turn => seqs [name "\\psrotate", params?, .rule .coord, .rule .argument,
      braced (.rule .body)]
  | .settings => seqs [name "\\psset", braced paramList]
  | .frame => seqs [name "\\psframe", star?, params?, .rule .coord, coord?]
  | .diamond => seqs [name "\\psdiamond", star?, params?, .rule .coord, coord?]
  | .triangle => seqs [name "\\pstriangle", star?, params?, .rule .coord, coord?]
  | .ellipse => seqs [name "\\psellipse", star?, params?, .rule .coord, coord?]
  | .circle => seqs [name "\\pscircle", star?, params?, coord?, .rule .argument]
  | .disk => seqs [name "\\qdisk", .rule .coord, .rule .argument]
  | .wedge => seqs [name "\\pswedge", star?, params?, coord?, .rule .argument, .rule .argument,
      .rule .argument]
  | .arc => seqs [.rule .arcName, star?, params?, arrows?, coord?, .rule .argument,
      .rule .argument, .rule .argument]
  | .arcName => .seq (alts [word "\\psarcn", word "\\psarc"]) (.notAhead (.one .letter))
  | .line => seqs [name "\\psline", star?, params?, arrows?, plus (.rule .coord)]
  | .segment => seqs [name "\\qline", .rule .coord, .rule .coord]
  | .polygon => seqs [name "\\pspolygon", star?, params?, plus (.rule .coord)]
  | .bezier => seqs [name "\\psbezier", star?, params?, arrows?, plus (.rule .coord)]
  | .dot => seqs [name "\\psdot", star?, params?, coord?]
  | .dots => seqs [name "\\psdots", star?, params?, plus (.rule .coord)]
  | .grid => seqs [name "\\psgrid", params?, .star (.rule .coord)]
  | .axes => seqs [name "\\psaxes", params?, arrows?, .star (.rule .coord)]
  | .plot => seqs [name "\\psplot", star?, params?, .rule .argument, .rule .argument,
      .rule .bracedText]
  | .curve => seqs [.rule .curveName, star?, params?, arrows?, plus (.rule .coord)]
  | .curveName => .seq (alts [word "\\psecurve", word "\\psccurve", word "\\pscurve"])
      (.notAhead (.one .letter))
  | .moveTo => seqs [name "\\moveto", .rule .coord]
  | .lineTo => seqs [name "\\lineto", plus (.rule .coord)]
  | .lineBy => seqs [name "\\rlineto", plus (.rule .coord)]
  | .curveTo => seqs [name "\\curveto", .rule .coord, .rule .coord, .rule .coord]
  | .curveBy => seqs [name "\\rcurveto", .rule .coord, .rule .coord, .rule .coord]
  | .closePath => name "\\closepath"
  | .framedBox => seqs [.rule .boxName, star?, params?, .rule .bracedText]
  | .boxName => .seq
      (alts [word "\\psframebox", word "\\psdblframebox", word "\\psshadowbox",
        word "\\pscirclebox", word "\\psovalbox", word "\\psdiabox", word "\\pstribox"])
      (.notAhead (.one .letter))
  | .defineColor => seqs [name "\\definecolor", braced (.rule .colorName),
      braced (.rule .colorModel), braced (.rule .colorValues)]
  | .newColor => seqs [.rule .newColorName, braced (.rule .colorName),
      braced (.rule .colorValues)]
  | .newColorName => .seq
      (alts [word "\\newrgbcolor", word "\\newgray", word "\\newcmykcolor", word "\\newhsbcolor"])
      (.notAhead (.one .letter))
  | .useColor => seqs [name "\\color", .rule .colorSpec]
  | .textColor => seqs [name "\\textcolor", .rule .colorSpec, .rule .bracedText]
  | .colorSpec => .seq (.opt (seqs [word "[", .rule .colorModel, word "]"]))
      (braced (.rule .colorValues))
  | .colorName => plus (.alt (.one .alphanumeric) (.one (.among "!.-_".toList)))
  | .colorModel => plus (.one .letter)
  | .colorValues => .star noBrace
  | .include => seqs [name "\\includegraphics", star?, params?, braced (.rule .filePath)]
  | .filePath => plus noBrace
  | .star => word "*"
  | .params => seqs [word "[", paramList, word "]"]
  | .param => .seq (.rule .paramKey) (.opt (.seq (word "=") (.rule .paramValue)))
  | .paramKey => .seq (.one .letter) (.star (.one .alphanumeric))
  | .paramValue => .star
      (.alt (.rule .bracedText) (.one (.except [',', ']', '\x7b', '\x7d'])))
  | .arrows => braced (.rule .arrowSpec)
  | .arrowSpec => seqs [arrowEnd, word "-", arrowEnd]
  | .coord => seqs [word "(", .opt (.alt (.rule .polarPair) (.rule .cartesianPair)), word ")"]
  | .cartesianPair => seqs [.rule .quantity, word ",", .rule .quantity]
  | .polarPair => seqs [.rule .quantity, word ";", .rule .quantity]
  | .argument => braced (.rule .quantity)
  | .quantity => .seq (.rule .number) (.opt (.rule .unit))
  | .number => .seq (.opt (.one (.among ['+', '-'])))
      (.alt
        (seqs [.star (.one .digit), word ".", plus (.one .digit)])
        (.seq (plus (.one .digit)) (.opt (word "."))))
  | .unit => alts (LengthUnit.all.map fun u => .lit u.letters)
  | .bracedText => braced (.star (.alt (.rule .bracedText) noBrace))
  | .text => .seq (.notAhead reserved) (alts [envMarker, macroText, plainWord])

end Rule

/-- The grammar of the notation. -/
def grammar : Grammar Rule where
  body := Rule.expr
  kind := Rule.kind
  ranks := 4

end PictureTree
