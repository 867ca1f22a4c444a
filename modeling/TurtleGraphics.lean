import TurtleGraphics.Bindings
import TurtleGraphics.Command
import TurtleGraphics.Environment
import TurtleGraphics.Eval
import TurtleGraphics.Execution
import TurtleGraphics.Fault
import TurtleGraphics.Interpreter
import TurtleGraphics.Log
import TurtleGraphics.Machine
import TurtleGraphics.Number.Binary64
import TurtleGraphics.Number.Decimal
import TurtleGraphics.Number.Numeral
import TurtleGraphics.Number.Printed
import TurtleGraphics.Number.Shortest
import TurtleGraphics.Palette
import TurtleGraphics.Program
import TurtleGraphics.Proofs.Advance
import TurtleGraphics.Proofs.Agreement
import TurtleGraphics.Proofs.Annotation
import TurtleGraphics.Proofs.BracketFaults
import TurtleGraphics.Proofs.Brackets
import TurtleGraphics.Proofs.Canvas
import TurtleGraphics.Proofs.Colors
import TurtleGraphics.Proofs.Concatenation
import TurtleGraphics.Proofs.Contexts
import TurtleGraphics.Proofs.Drawing
import TurtleGraphics.Proofs.Effects
import TurtleGraphics.Proofs.Endings
import TurtleGraphics.Proofs.Failures
import TurtleGraphics.Proofs.FloatBits
import TurtleGraphics.Proofs.Globals
import TurtleGraphics.Proofs.Grammar
import TurtleGraphics.Proofs.Guards
import TurtleGraphics.Proofs.Halving
import TurtleGraphics.Proofs.Hidden
import TurtleGraphics.Proofs.Hoisting
import TurtleGraphics.Proofs.Layout
import TurtleGraphics.Proofs.Limits
import TurtleGraphics.Proofs.Linking
import TurtleGraphics.Proofs.Lockstep
import TurtleGraphics.Proofs.LoneBrackets
import TurtleGraphics.Proofs.Moments
import TurtleGraphics.Proofs.Names
import TurtleGraphics.Proofs.Nearest
import TurtleGraphics.Proofs.NumeralText
import TurtleGraphics.Proofs.NumericTruth
import TurtleGraphics.Proofs.Partners
import TurtleGraphics.Proofs.PenErasure
import TurtleGraphics.Proofs.Phrases
import TurtleGraphics.Proofs.PostOrder
import TurtleGraphics.Proofs.PrefixOrder
import TurtleGraphics.Proofs.ProcedureTables
import TurtleGraphics.Proofs.ReadBounds
import TurtleGraphics.Proofs.ReadComplete
import TurtleGraphics.Proofs.ReadSound
import TurtleGraphics.Proofs.Records
import TurtleGraphics.Proofs.Renaming
import TurtleGraphics.Proofs.RunsInTurn
import TurtleGraphics.Proofs.RunsOnce
import TurtleGraphics.Proofs.Scopes
import TurtleGraphics.Proofs.ScriptText
import TurtleGraphics.Proofs.SourceRoundTrip
import TurtleGraphics.Proofs.Spelling
import TurtleGraphics.Proofs.Splitting
import TurtleGraphics.Proofs.StatementPhrases
import TurtleGraphics.Proofs.StrayBlanks
import TurtleGraphics.Proofs.Termination
import TurtleGraphics.Proofs.TokenPlaces
import TurtleGraphics.Proofs.WellFormed
import TurtleGraphics.Proofs.WrongToken
import TurtleGraphics.Settings
import TurtleGraphics.Syntax.Basic
import TurtleGraphics.Syntax.Parse
import TurtleGraphics.Syntax.ParseError
import TurtleGraphics.Syntax.Printer
import TurtleGraphics.Syntax.ReadExpr
import TurtleGraphics.Syntax.ReadStmt
import TurtleGraphics.Syntax.Shape
import TurtleGraphics.Text.Digit
import TurtleGraphics.Text.Printable
import TurtleGraphics.Text.Quoted
import TurtleGraphics.Text.Space
import TurtleGraphics.Token
import TurtleGraphics.Token.Scan
import TurtleGraphics.Turtle
import TurtleGraphics.Value
import TurtleGraphics.Vocabulary
