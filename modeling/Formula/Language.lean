import Formula.Arithmetic
import Formula.Boolean

/-!
# Languages

A language is a grammar with the checks and the meaning that go with it. A bare grammar has neither.
-/

namespace Formula

inductive Language where
  | arithmetic (grammar : Grammar) (operators? : Option Arithmetic.OperatorTable)
  | boolean (grammar : Grammar)
  | bare (grammar : Grammar)

namespace Language

def usualArithmetic : Language := .arithmetic Arithmetic.grammar (some Arithmetic.apply)

def usualBoolean : Language := .boolean Boolean.grammar

def grammar : Language → Grammar
  | .arithmetic grammar _ => grammar
  | .boolean grammar => grammar
  | .bare grammar => grammar

/-- The tree of a source, after the checks of the language. -/
def build (language : Language) (source : String) (dropSigil : Bool) : BuildM Expr :=
  match language with
  | .arithmetic grammar _ => Arithmetic.build grammar source dropSigil
  | .boolean grammar => Boolean.build grammar source dropSigil
  | .bare grammar => grammar.build source dropSigil

/-- The same grammar without checks or meaning. -/
def unchecked (language : Language) : Language := .bare language.grammar

end Language

end Formula
