import Formula.Expr.Measure
import Formula.Proofs.Session
import Formula.Proofs.Emission
import Formula.Proofs.Parser.Reading
import Formula.Proofs.Parser.Derivation
import Formula.Proofs.Parser.Parentheses
import Formula.Proofs.Evaluation.Ending
import Formula.Proofs.Parser.Scan
import Formula.Proofs.Evaluation.Arithmetic
import Formula.Proofs.Evaluation.Boolean
import Formula.Proofs.Text.Characters
import Formula.Proofs.Token.Cursor
import Formula.Proofs.Token.Lexeme
import Formula.Proofs.Token.Chunks
import Formula.Proofs.Token.Layout
import Formula.Proofs.Token.Failure
import Formula.Proofs.Build
import Formula.Proofs.Expr.Display
import Formula.Proofs.RoundTrip
import Formula.Proofs.Expr.Keys
import Formula.Proofs.Parser.Variables
import Formula.Proofs.Sigil
import Formula.Proofs.Evaluation.Lookups
import Formula.Proofs.Evaluation.Failure
import Formula.Proofs.Evaluation.Wrapping
import Formula.Proofs.Enclosure
import Formula.Proofs.Verbosity
import Formula.Proofs.Text.Slice
import Formula.Proofs.Token.Decoding
import Formula.Proofs.Token.Calls
import Formula.Proofs.Token.Boundaries
import Formula.Proofs.Evaluation.Deciding
import Formula.Proofs.Diagnostics
import Formula.Proofs.Expr.Record
import Formula.Proofs.Reporting
import Formula.Proofs.Evaluation.Classical
import Formula.Proofs.Evaluation.Dependence
import Formula.Proofs.Evaluation.Substitution
import Formula.Proofs.Tracing
import Formula.Proofs.Evaluation.Regrouping
import Formula.Proofs.Evaluation.Division
import Formula.Proofs.Literals
import Formula.Proofs.Expr.Unambiguity
import Formula.Proofs.Expr.Measure
import Formula.Proofs.Parser.Climbing
import Formula.Proofs.Precedence
