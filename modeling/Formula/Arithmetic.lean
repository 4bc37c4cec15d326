import Formula.Grammar
import Formula.Resolver

/-!
# Arithmetic

Formulas over `+ - * / %` with decimal literals and variables. Values have 64 bits and every operation
wraps around; division truncates toward zero, and a zero divisor is an error.

`interpret` evaluates operands from left to right and then applies the operator. The walk goes down into
a tree and up with a value, and keeps the operators on the way in frames, so that a tree may be of any
depth.
-/

namespace Formula.Arithmetic

def isLeaf : Kind → Bool
  | .var | .int => true
  | .op => false

def grammar : Grammar where
  precedence := .arithmetic
  isLeaf := isLeaf
  lexing := .arithmetic

/-- The tree of a source, which must not be empty. -/
def build (grammar : Grammar) (source : String) (dropSigil : Bool) : BuildM Expr := do
  if source.isEmpty then
    throw (.structural .empty)
  grammar.build source dropSigil

/-! ### Operators -/

/-- Gives operators their meaning. -/
abbrev OperatorTable := String → Int64 → Int64 → Except EvaluationError Int64

def apply : OperatorTable := fun operator left right =>
  match operator with
  | "+" => .ok (left + right)
  | "-" => .ok (left - right)
  | "*" => .ok (left * right)
  | "/" => if right = 0 then .error (.divisionByZero operator left right) else .ok (left / right)
  | "%" => if right = 0 then .error (.divisionByZero operator left right) else .ok (left % right)
  | _ => .error (.unknownOperator operator)

/-- The table that knows some operators by other names. -/
def OperatorTable.renamed (names : List (String × String)) (table : OperatorTable) : OperatorTable :=
  fun operator => table ((names.lookup operator).getD operator)

/-! ### Evaluation -/

/-- Applies an operator and reports it. -/
def applyStep (table : OperatorTable) (key : String) (left right : Int64) : EvalM Int64 :=
  match table key left right with
  | .error e => throw e
  | .ok value => do
    logStep s!"{toString left.toInt} {key} {toString right.toInt} = {toString value.toInt}"
    return value

def literal (key : String) : EvalM Int64 :=
  match Decimal.read key with
  | .ok value => return value
  | .error cause => throw (.malformedInteger key cause)

/-- Where the walk is: above a tree still to evaluate, or below an operator with an operand's value. -/
inductive Focus where
  | down (e : Expr)
  | up (value : Int64)

/-- An operator one of whose operands is being evaluated, with what is known of the other. -/
inductive Frame where
  | inLeft (key : String) (right : Expr)
  | inRight (key : String) (left : Int64)

def Focus.weight : Focus → Nat
  | .down e => 3 * e.size
  | .up _ => 0

def Frame.weight : Frame → Nat
  | .inLeft _ right => 3 * right.size + 2
  | .inRight .. => 1

/-- Goes on from `focus` until every frame is used up. -/
def walk (table : OperatorTable) (resolver? : Option (Resolver Int64)) :
    Focus → List Frame → EvalM Int64
  | .down (.op key left right), frames =>
    walk table resolver? (.down left) (.inLeft key right :: frames)
  | .down (.var key), frames => do
    let value ← EvalM.lookUp resolver? key
    walk table resolver? (.up value) frames
  | .down (.int key), frames => do
    let value ← literal key
    walk table resolver? (.up value) frames
  | .up value, [] => return value
  | .up value, .inLeft key right :: frames =>
    walk table resolver? (.down right) (.inRight key value :: frames)
  | .up value, .inRight key left :: frames => do
    let value ← applyStep table key left value
    walk table resolver? (.up value) frames
termination_by focus frames => focus.weight + Worklist.weight Frame.weight frames
decreasing_by all_goals simp [Focus.weight, Frame.weight, Expr.size] <;> omega

/-- The value of a tree. Without operators to apply, an operator fails before its operands are seen. -/
def interpret (table? : Option OperatorTable) (resolver? : Option (Resolver Int64)) (e : Expr) :
    EvalM Int64 :=
  match table?, e with
  | some table, e => walk table resolver? (.down e) []
  | none, .op key _ _ => throw (.missingOperatorTable key)
  | none, .var key => EvalM.lookUp resolver? key
  | none, .int key => literal key

end Formula.Arithmetic
