import Heightfield.Colour.Catalog
import Heightfield.Colour.Phase
import Heightfield.Colour.Shading
import Heightfield.Colour.Table
import Heightfield.Colour.Viridis
import Heightfield.Console.Arguments
import Heightfield.Console.Run
import Heightfield.Console.Screen
import Heightfield.Equation
import Heightfield.Formula.Apply
import Heightfield.Formula.Arithmetic
import Heightfield.Formula.Compile
import Heightfield.Formula.Evaluate
import Heightfield.Formula.Expr
import Heightfield.Formula.Function
import Heightfield.Formula.Meaning
import Heightfield.Formula.Names
import Heightfield.Formula.Phrase
import Heightfield.Formula.Token
import Heightfield.Formula.Value
import Heightfield.Json.Display
import Heightfield.Json.Number
import Heightfield.Json.Reader
import Heightfield.Json.Value
import Heightfield.Json.Writer
import Heightfield.Juxtaposition
import Heightfield.Latex.Commands
import Heightfield.Latex.Delimiters
import Heightfield.Latex.Groups
import Heightfield.Latex.Plain
import Heightfield.Latex.Substitution
import Heightfield.Main
import Heightfield.Number.Binary64
import Heightfield.Number.Complex
import Heightfield.Number.ComplexDouble
import Heightfield.Number.Decimal
import Heightfield.Number.Double
import Heightfield.Number.Elementary
import Heightfield.Number.Gamma
import Heightfield.Number.Reading
import Heightfield.Number.Scalar
import Heightfield.Service.Catalog
import Heightfield.Service.Fields
import Heightfield.Service.Lines
import Heightfield.Service.Request
import Heightfield.Session
import Heightfield.Settings
import Heightfield.Surface.Axis
import Heightfield.Surface.Grid
import Heightfield.Surface.Interval
import Heightfield.Surface.Lattice
import Heightfield.Surface.Limits
import Heightfield.Surface.Raster
import Heightfield.Surface.Report
import Heightfield.Surface.Resolution
import Heightfield.Surface.Statistics
import Heightfield.Text.Blank
import Heightfield.Text.Digits
import Heightfield.Text.Printable
import Heightfield.Text.Quoted
import Heightfield.Vocabulary
import Heightfield.Proofs.Surface.Sheet
import Heightfield.Proofs.Surface.Sampling
import Heightfield.Proofs.Formula.Tree
import Heightfield.Proofs.Formula.Scan
import Heightfield.Proofs.Formula.Dialect
import Heightfield.Proofs.Formula.Grammar
import Heightfield.Proofs.Formula.Variables
import Heightfield.Proofs.Formula.RoundTrip
import Heightfield.Proofs.Formula.Explicit
import Heightfield.Proofs.Formula.Written
import Heightfield.Proofs.Names.Spelling
import Heightfield.Proofs.Names.Tokens
import Heightfield.Proofs.Names.Factorials
import Heightfield.Proofs.Names.Phrases
import Heightfield.Proofs.Names.Meanings
import Heightfield.Proofs.Names.Operands
import Heightfield.Proofs.Names.Report
import Heightfield.Proofs.Formula.Text
import Heightfield.Proofs.Names.Undefined
import Heightfield.Proofs.Names.Called
import Heightfield.Proofs.Juxtaposition.Piece
import Heightfield.Proofs.Juxtaposition.Stars
import Heightfield.Proofs.Juxtaposition.Repeat
import Heightfield.Proofs.Juxtaposition.Ends
import Heightfield.Proofs.Juxtaposition.Products
import Heightfield.Proofs.Latex.Substitution
import Heightfield.Proofs.Latex.Groups
import Heightfield.Proofs.Latex.Term
import Heightfield.Proofs.Latex.Opening
import Heightfield.Proofs.Latex.Closing
import Heightfield.Proofs.Latex.Conversion
import Heightfield.Proofs.Session.Chronicle
import Heightfield.Proofs.Session.History
import Heightfield.Proofs.Session.Order
import Heightfield.Proofs.Session.Failure
import Heightfield.Proofs.Surface.Dependence
import Heightfield.Proofs.Juxtaposition.Seam
import Heightfield.Proofs.Latex.Ordinary
import Heightfield.Proofs.Juxtaposition.Gap
import Heightfield.Proofs.Latex.Spacing
import Heightfield.Proofs.Latex.SpacedRules
import Heightfield.Proofs.Latex.Settled
import Heightfield.Proofs.Latex.Stages
import Heightfield.Proofs.Latex.ControlWord
import Heightfield.Proofs.Latex.NormalForm
import Heightfield.Proofs.Latex.AbsoluteValues
import Heightfield.Proofs.Number.Value
import Heightfield.Proofs.Number.Rounding
import Heightfield.Proofs.Number.Arithmetic
import Heightfield.Proofs.Number.Nearest
import Heightfield.Proofs.Number.Bounded
import Heightfield.Proofs.Surface.Channels
import Heightfield.Proofs.Service.Steps
import Heightfield.Proofs.Service.View
import Heightfield.Proofs.Service.Consistency
import Heightfield.Proofs.Surface.Magnitude
import Heightfield.Proofs.Surface.Positions
import Heightfield.Proofs.Surface.Selection
import Heightfield.Proofs.Surface.Clipping
import Heightfield.Proofs.Colour.Channels
import Heightfield.Proofs.Console.Agreement
import Heightfield.Proofs.Service.Strictness
import Heightfield.Proofs.Service.Resubmission
import Heightfield.Proofs.Service.Given
import Heightfield.Proofs.Service.Actions
import Heightfield.Proofs.Number.Exact
import Heightfield.Proofs.Number.RealLine
import Heightfield.Proofs.Surface.Window
import Heightfield.Proofs.Modes.Values
import Heightfield.Proofs.Modes.Agreement
import Heightfield.Proofs.Modes.Written
import Heightfield.Proofs.Number.Monotone
import Heightfield.Proofs.Number.Integers
import Heightfield.Proofs.Surface.Order
import Heightfield.Proofs.Surface.Averages
import Heightfield.Proofs.Surface.Axis
import Heightfield.Proofs.Formula.Divisors
import Heightfield.Proofs.Colour.Scale
import Heightfield.Proofs.Json.Line
import Heightfield.Proofs.Service.Serving
