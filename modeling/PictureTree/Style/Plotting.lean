/-
# `Style.Plotting` — how functions are plotted
-/
import PictureTree.Style.Reading

open scoped PictureTree.Scalar

namespace PictureTree

/-- How the points of a plot are joined. -/
inductive PlotStyle where
  | line | polygon | curve | closedCurve | endCurve | dots
deriving DecidableEq, Repr

/-- How functions are plotted. -/
structure Plotting where
  style : PlotStyle
  points : Nat
  polar : Bool
deriving DecidableEq, Repr

namespace Plotting

/-- The names of plot styles. -/
def styleNames : List (String × PlotStyle) :=
  [("line", .line), ("polygon", .polygon), ("curve", .curve), ("ccurve", .closedCurve),
   ("ecurve", .endCurve), ("dots", .dots)]

/-- A change of plotting. -/
inductive Setting where
  | style (s : PlotStyle)
  | points (n : Nat)
  | polar (b : Bool)

/-- The key of a setting. -/
def Setting.key : Setting → String
  | .style _ => "plotstyle"
  | .points _ => "plotpoints"
  | .polar _ => "polarplot"

/-- The setting that a key and its value make. -/
def Setting.read? (p : Param) : Option (Except ResolveError Setting) :=
  match p.key with
  | "plotstyle" => some ((Reading.choice styleNames p).map .style)
  | "plotpoints" => some ((Reading.count p).map .points)
  | "polarplot" => some ((Reading.flag p).map .polar)
  | _ => none

/-- Plotting with a change made; a plot has at least two points. -/
def put (g : Plotting) : Setting → Plotting
  | .style s => { g with style := s }
  | .points n => { g with points := max n 2 }
  | .polar b => { g with polar := b }

end Plotting

end PictureTree
