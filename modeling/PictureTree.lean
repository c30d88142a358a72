import PictureTree.Canvas
import PictureTree.Decimal.Shortest
import PictureTree.PictureFile
import PictureTree.Decimal.Fixed
import PictureTree.Proofs.Grouping.NormalForm
import PictureTree.Proofs.Grouping.TrivialGroups
import PictureTree.Proofs.Canvas.AllOrNothing
import PictureTree.Proofs.Canvas.Chords
import PictureTree.Proofs.Canvas.Finiteness
import PictureTree.Proofs.Canvas.Definitions
import PictureTree.Proofs.Canvas.Leaves
import PictureTree.Proofs.Canvas.Closing
import PictureTree.Proofs.Canvas.Brackets
import PictureTree.Proofs.Canvas.CustomPaths
import PictureTree.Proofs.Canvas.Gamut
import PictureTree.Proofs.Canvas.DefinedColors
import PictureTree.Proofs.Canvas.Placement
import PictureTree.Proofs.Canvas.Texts
import PictureTree.Proofs.Path.Merging
import PictureTree.Proofs.Document.TrailingWord
import PictureTree.Proofs.Grammar.Derivation
import PictureTree.Proofs.Numeral.Spelling
import PictureTree.Proofs.Document.Parts
import PictureTree.Proofs.Document.Readable
import PictureTree.Proofs.Grammar.Fixpoint
import PictureTree.Proofs.Document.Sources
import PictureTree.Proofs.Grammar.Gaps
import PictureTree.Proofs.Grammar.Openings
import PictureTree.Proofs.Grammar.Balance
import PictureTree.Proofs.Document.Braces
import PictureTree.Proofs.Document.Balanced
import PictureTree.Proofs.Document.Commands
import PictureTree.Proofs.Document.Groups
import PictureTree.Proofs.Document.Pieces
import PictureTree.Proofs.Document.Tokens
import PictureTree.Proofs.Document.Operands
import PictureTree.Proofs.Document.Comments
import PictureTree.Proofs.Document.Recognized
import PictureTree.Proofs.Style.Reading
import PictureTree.Proofs.Style.Independence
import PictureTree.Proofs.Context.Parameters
import PictureTree.Proofs.Canvas.Starred
import PictureTree.Proofs.Document.Walk
import PictureTree.Proofs.Canvas.Origins
import PictureTree.Proofs.Canvas.Places
import PictureTree.Proofs.Context.Ranges
import PictureTree.Proofs.Style.Amounts
import PictureTree.Proofs.Context.Numbers
import PictureTree.Proofs.Shape.Rigidity
import PictureTree.Proofs.Shape.Splitting
import PictureTree.Proofs.Shape.Corners
import PictureTree.Proofs.Canvas.Retracing
import PictureTree.Proofs.Canvas.Clockwise
import PictureTree.Proofs.Grammar.Standing
import PictureTree.Proofs.Text.Unbracing
import PictureTree.Proofs.Document.Assignments
import PictureTree.Proofs.Document.Settings
import PictureTree.Proofs.Numeral.Literals
import PictureTree.Proofs.Document.Quantities
import PictureTree.Proofs.Document.Coordinates
import PictureTree.Proofs.Shape.PointLists
import PictureTree.Proofs.Canvas.PointLists
import PictureTree.Proofs.Color.Doubles
import PictureTree.Proofs.Color.Hues
import PictureTree.Proofs.Color.Hexadecimal
import PictureTree.Proofs.Shape.Frames
import PictureTree.Proofs.Canvas.Pictures
import PictureTree.Proofs.Style.LineEnds
import PictureTree.Proofs.Document.MatchingBrace
import PictureTree.Proofs.Document.Environments
import PictureTree.Proofs.Document.Progress
