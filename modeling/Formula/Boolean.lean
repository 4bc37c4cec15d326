import Formula.Grammar
import Formula.Resolver
import Formula.Truth

/-!
# Boolean formulas

Formulas over `&&` and `||` with variables as the only leaves, the whole of it in parentheses. A variable
holds, or fails for a reason of the caller's.

Both operators decide as early as they can, and the operand that decides is the result, reason included:
a conjunction whose left operand fails and a disjunction whose left operand holds never look at the
right one. In the other two cases the right operand is the result.
-/

namespace Formula.Boolean

def isLeaf : Kind → Bool
  | .var => true
  | _ => false

def grammar : Grammar where
  precedence := .logical
  isLeaf := isLeaf
  lexing := .logical

/-- The tree of a source, which must stand in parentheses. -/
def build (grammar : Grammar) (source : String) (dropSigil : Bool) : BuildM Expr := do
  let bytes := Utf8.encode source
  if bytes.length < 2 then
    throw (.structural (.tooShort source))
  if bytes.head? ≠ some '('.toUInt8 then
    throw (.structural .missingOpen)
  if bytes.getLast? ≠ some ')'.toUInt8 then
    throw (.structural .missingClose)
  grammar.build source dropSigil

/-- The operators that have a meaning. -/
inductive Connective where
  | and | or
  deriving DecidableEq, Repr

namespace Connective

def ofKey? : String → Option Connective
  | "&&" => some .and
  | "||" => some .or
  | _ => none

/-- The left operand is the result. -/
def isDecidedBy {ρ : Type} (left : Truth ρ) : Connective → Bool
  | .and => left.isFalse
  | .or => left.isTrue

/-- The line for a right operand that is passed over. -/
def skipLine : Connective → String
  | .and => "Left operand of `&&` is false. Skipping the right operand."
  | .or => "Left operand of `||` is true. Skipping the right operand."

end Connective

/-! ### Evaluation -/

/-- Where the walk is: above a tree still to evaluate, or below an operator with its left operand. -/
inductive Focus (ρ : Type) where
  | down (e : Expr)
  | up (truth : Truth ρ)

/-- An operator whose left operand is being evaluated. -/
structure Frame where
  connective : Connective
  right : Expr

def Focus.weight {ρ : Type} : Focus ρ → Nat
  | .down e => 2 * e.size
  | .up _ => 0

def Frame.weight (frame : Frame) : Nat := 2 * frame.right.size + 1

/-- Goes on from `focus` until every frame is used up. -/
def walk {ρ : Type} (resolver? : Option (Resolver (Truth ρ))) :
    Focus ρ → List Frame → EvalM (Truth ρ)
  | .down (.op key left right), frames =>
    match Connective.ofKey? key with
    | none => do
      logFailure s!"Undefined op: {key}"
      throw (.unknownOperator key)
    | some connective => walk resolver? (.down left) (⟨connective, right⟩ :: frames)
  | .down (.var key), frames => do
    let truth ← EvalM.lookUp resolver? key
    walk resolver? (.up truth) frames
  | .down (.int key), _ => throw (.unexpectedNode .int key)
  | .up truth, [] => return truth
  | .up truth, ⟨connective, right⟩ :: frames =>
    if connective.isDecidedBy truth then do
      logStep connective.skipLine
      walk resolver? (.up truth) frames
    else
      walk resolver? (.down right) frames
termination_by focus frames => focus.weight + Worklist.weight Frame.weight frames
decreasing_by all_goals simp [Focus.weight, Frame.weight, Expr.size] <;> omega

def interpret {ρ : Type} (resolver? : Option (Resolver (Truth ρ))) (e : Expr) : EvalM (Truth ρ) :=
  walk resolver? (.down e) []

end Formula.Boolean
