import Treewalk.Command.Invocation
import Treewalk.Command.Path
import Treewalk.Decimal.Arith
import Treewalk.Decimal.Basic
import Treewalk.Decimal.Rounding
import Treewalk.Decimal.Text
import Treewalk.Eval.Basic
import Treewalk.Eval.Conversion
import Treewalk.Eval.Fault
import Treewalk.Eval.Machine
import Treewalk.Eval.Number
import Treewalk.Eval.Operator
import Treewalk.Eval.Template
import Treewalk.Main
import Treewalk.Parse.Error
import Treewalk.Parse.Grammar
import Treewalk.Parse.Literal
import Treewalk.Parse.Reader
import Treewalk.Program
import Treewalk.Prompt.Colour
import Treewalk.Prompt.Console
import Treewalk.Prompt.Keys
import Treewalk.Prompt.Line
import Treewalk.Proofs.Arithmetic.Evaluation
import Treewalk.Proofs.Arithmetic.Formula
import Treewalk.Proofs.Arithmetic.Numeral
import Treewalk.Proofs.Arithmetic.Written
import Treewalk.Proofs.Decimal.Arith
import Treewalk.Proofs.Decimal.Fit
import Treewalk.Proofs.Decimal.Nearest
import Treewalk.Proofs.Decimal.Order
import Treewalk.Proofs.Decimal.Range
import Treewalk.Proofs.Decimal.Reading
import Treewalk.Proofs.Eval.Action
import Treewalk.Proofs.Eval.Builtin
import Treewalk.Proofs.Eval.Depth
import Treewalk.Proofs.Eval.Format
import Treewalk.Proofs.Eval.Functions
import Treewalk.Proofs.Eval.Giving
import Treewalk.Proofs.Eval.Invariant
import Treewalk.Proofs.Eval.Lines
import Treewalk.Proofs.Eval.Moment
import Treewalk.Proofs.Eval.Operators
import Treewalk.Proofs.Eval.Origin
import Treewalk.Proofs.Eval.Proper
import Treewalk.Proofs.Eval.Purity
import Treewalk.Proofs.Eval.ReadBack
import Treewalk.Proofs.Eval.Relocation
import Treewalk.Proofs.Eval.Rounding
import Treewalk.Proofs.Grammar.Arrangement
import Treewalk.Proofs.Grammar.Basic
import Treewalk.Proofs.Grammar.Blame
import Treewalk.Proofs.Grammar.Complete
import Treewalk.Proofs.Grammar.Exact
import Treewalk.Proofs.Grammar.First
import Treewalk.Proofs.Grammar.FirstError
import Treewalk.Proofs.Grammar.Nesting
import Treewalk.Proofs.Grammar.Placed
import Treewalk.Proofs.Grammar.Ranked
import Treewalk.Proofs.Grammar.Reading
import Treewalk.Proofs.Grammar.Relaid
import Treewalk.Proofs.Grammar.Sound
import Treewalk.Proofs.Layout.Accepted
import Treewalk.Proofs.Layout.Bare
import Treewalk.Proofs.Layout.Behaviour
import Treewalk.Proofs.Layout.Tokens
import Treewalk.Proofs.Prompt.Fragments
import Treewalk.Proofs.Prompt.Invisible
import Treewalk.Proofs.Prompt.Submission
import Treewalk.Proofs.Prompt.Typed
import Treewalk.Proofs.Reader.Place
import Treewalk.Proofs.Reader.Progress
import Treewalk.Proofs.Reader.Rounds
import Treewalk.Proofs.Reader.Runs
import Treewalk.Proofs.Reader.Termination
import Treewalk.Proofs.Scan.Cut
import Treewalk.Proofs.Scan.Decoding
import Treewalk.Proofs.Scan.Faults
import Treewalk.Proofs.Scan.Glyphs
import Treewalk.Proofs.Scan.Lexicon
import Treewalk.Proofs.Scan.LineByLine
import Treewalk.Proofs.Scan.Lines
import Treewalk.Proofs.Scan.Lookahead
import Treewalk.Proofs.Scan.Lossless
import Treewalk.Proofs.Scan.Order
import Treewalk.Proofs.Scan.Positions
import Treewalk.Proofs.Scan.Recognition
import Treewalk.Proofs.Scan.RoundTrip
import Treewalk.Proofs.Scan.Shapes
import Treewalk.Proofs.Scan.WellFormed
import Treewalk.Proofs.Scan.Words
import Treewalk.Proofs.Scope.Chain
import Treewalk.Proofs.Scope.Discipline
import Treewalk.Proofs.Scope.Growth
import Treewalk.Proofs.Scope.Relocation
import Treewalk.Proofs.Scope.Separation
import Treewalk.Proofs.Scope.Sharing
import Treewalk.Proofs.Scope.Store
import Treewalk.Proofs.Scope.Titles
import Treewalk.Proofs.Scope.WellFormed
import Treewalk.Proofs.Session.Blame
import Treewalk.Proofs.Session.Comparison
import Treewalk.Proofs.Session.Decimals
import Treewalk.Proofs.Session.Faults
import Treewalk.Proofs.Session.InPlace
import Treewalk.Proofs.Session.Lines
import Treewalk.Proofs.Session.Pieces
import Treewalk.Proofs.Session.Reachable
import Treewalk.Proofs.Session.Reset
import Treewalk.Proofs.Session.Titles
import Treewalk.Proofs.Session.Trimming
import Treewalk.Proofs.Syntax.Code
import Treewalk.Proofs.Syntax.Cut
import Treewalk.Proofs.Syntax.Derived
import Treewalk.Proofs.Syntax.Inline
import Treewalk.Proofs.Syntax.Recast
import Treewalk.Proofs.Syntax.Schema
import Treewalk.Proofs.Text.Encoding
import Treewalk.Proofs.Text.Utf8
import Treewalk.Scope
import Treewalk.Session
import Treewalk.Settings
import Treewalk.Source.Diagnostic
import Treewalk.Source.Glyph
import Treewalk.Source.Position
import Treewalk.Syntax.Basic
import Treewalk.Syntax.Form
import Treewalk.Syntax.Tree
import Treewalk.Text.Blank
import Treewalk.Text.Digit
import Treewalk.Text.Letter
import Treewalk.Text.Lines
import Treewalk.Text.Printable
import Treewalk.Text.Quoted
import Treewalk.Text.Ranges
import Treewalk.Text.Utf8
import Treewalk.Token.Basic
import Treewalk.Token.Kind
import Treewalk.Token.Lexeme
import Treewalk.Token.Shape
import Treewalk.Value
