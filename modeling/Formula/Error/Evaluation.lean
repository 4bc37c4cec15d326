import Formula.Expr.Basic
import Formula.Text.Decimal

/-!
# Why a tree has no value

An evaluation error ends one evaluation. The tree stays as it was and may be evaluated again.
-/

namespace Formula

inductive EvaluationError where
  | missingResolver (key : String)
  | missingOperatorTable (key : String)
  /-- Whatever the resolver failed with. -/
  | resolver (text : String)
  | malformedInteger (literal : String) (cause : Decimal.Flaw)
  | divisionByZero (operator : String) (left right : Int64)
  | unknownOperator (key : String)
  | unexpectedNode (kind : Kind) (key : String)
  deriving DecidableEq, Repr

def EvaluationError.message : EvaluationError → String
  | .missingResolver key => "no variable resolver configured, cannot resolve `" ++ key ++ "`"
  | .missingOperatorTable key => "no operator table configured, cannot apply `" ++ key ++ "`"
  | .resolver text => text
  | .malformedInteger literal cause =>
    "malformed integer literal `" ++ literal ++ "`: " ++ cause.message
  | .divisionByZero operator left right =>
    "violation of arithmetic specification: a division by zero: ["
      ++ toString left.toInt ++ operator ++ toString right.toInt ++ "]"
  | .unknownOperator key => "unknown op: `" ++ key ++ "`"
  | .unexpectedNode kind key => "unexpected " ++ kind.name ++ " node `" ++ key ++ "`"

end Formula
