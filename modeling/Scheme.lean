import Scheme.Datum.Basic
import Scheme.Datum.Equality
import Scheme.Datum.Name
import Scheme.Datum.Printer
import Scheme.Datum.Walk
import Scheme.Eval.Conversion
import Scheme.Eval.Error
import Scheme.Eval.Failure
import Scheme.Eval.Interpreter
import Scheme.Eval.Machine
import Scheme.Eval.Prelude
import Scheme.Eval.Shape
import Scheme.Eval.Store
import Scheme.Eval.Value
import Scheme.Main
import Scheme.Number.Basic
import Scheme.Number.Binary64
import Scheme.Number.Cartesian
import Scheme.Number.Circular
import Scheme.Number.Digits
import Scheme.Number.Exponential
import Scheme.Number.Function
import Scheme.Number.Literal
import Scheme.Number.Polynomial
import Scheme.Number.Power
import Scheme.Number.Printer
import Scheme.Number.Real
import Scheme.Number.Rounding
import Scheme.Number.Scale
import Scheme.Number.Shortest
import Scheme.Proofs.Appending
import Scheme.Proofs.Balance
import Scheme.Proofs.BareNames
import Scheme.Proofs.Binding
import Scheme.Proofs.Boundary
import Scheme.Proofs.Calls
import Scheme.Proofs.Composition
import Scheme.Proofs.Contagion
import Scheme.Proofs.Continuation
import Scheme.Proofs.Counters
import Scheme.Proofs.Depth
import Scheme.Proofs.Descent
import Scheme.Proofs.Effect
import Scheme.Proofs.Ending
import Scheme.Proofs.Equivalence
import Scheme.Proofs.Escapes
import Scheme.Proofs.Exhaustion
import Scheme.Proofs.Expansion
import Scheme.Proofs.FloatBits
import Scheme.Proofs.Fractions
import Scheme.Proofs.FrameHistory
import Scheme.Proofs.Frames
import Scheme.Proofs.Gaussian
import Scheme.Proofs.Grammar
import Scheme.Proofs.IntegerDivision
import Scheme.Proofs.IntegerParts
import Scheme.Proofs.Joining
import Scheme.Proofs.Keywords
import Scheme.Proofs.Loading
import Scheme.Proofs.Nearest
import Scheme.Proofs.NumberText
import Scheme.Proofs.Parameters
import Scheme.Proofs.Powers
import Scheme.Proofs.Primitives
import Scheme.Proofs.Quotation
import Scheme.Proofs.RealAxis
import Scheme.Proofs.Rectangular
import Scheme.Proofs.Recursion
import Scheme.Proofs.RoundTrip
import Scheme.Proofs.Rules
import Scheme.Proofs.Safety
import Scheme.Proofs.Scan
import Scheme.Proofs.Session
import Scheme.Proofs.Shapes
import Scheme.Proofs.Sharing
import Scheme.Proofs.SoundStore
import Scheme.Proofs.Spelling
import Scheme.Proofs.Splicing
import Scheme.Proofs.Templates
import Scheme.Proofs.Walks
import Scheme.Reader.Error
import Scheme.Reader.Lexer
import Scheme.Reader.Parser
import Scheme.Reader.Script
import Scheme.Reader.Source
import Scheme.Reader.Token
import Scheme.Shell.Console
import Scheme.Shell.History
import Scheme.Shell.Line
import Scheme.Shell.Options
import Scheme.Shell.Repl
import Scheme.Shell.Run
import Scheme.Text.Blank
import Scheme.Text.Hex
import Scheme.Text.Printable
import Scheme.Text.Quoted
