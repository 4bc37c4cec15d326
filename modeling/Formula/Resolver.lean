import Formula.Error.Evaluation
import Formula.Log

/-!
# Resolvers

Evaluating a tree leaves its variables to the caller. A resolver answers for a key, or fails with a text
of its own, and may take into account the lookups before. An evaluation keeps the keys it has asked for,
so that what it did to the resolver can be told from its result.
-/

namespace Formula

/-- Answers for a key, given the keys asked for earlier, the latest first. -/
abbrev Resolver (α : Type) := List String → String → Except String α

/-- The answer whose turn it is: every earlier lookup of the key uses one up, and the last one stays. -/
def Resolver.turn {α : Type} (key : String) (answer : α) : (others : List α) → (asked : List String) → α
  | [], _ => answer
  | _, [] => answer
  | next :: others, earlier :: asked =>
    if earlier = key then turn key next others asked else turn key answer (next :: others) asked

/-- Answers from lists, one list for each key. -/
def Resolver.scripted {α : Type} (answers : List (String × List (Except String α))) : Resolver α :=
  fun asked key =>
    match answers.lookup key with
    | some (answer :: others) => turn key answer others asked
    | _ => .error s!"key `{key}` missing"

/-- Work that may fail, and that keeps the keys it has looked up, the latest first. -/
abbrev EvalM := ExceptT EvaluationError (StateT (List String) LogM)

def EvalM.lookUp {α : Type} (resolver? : Option (Resolver α)) (key : String) : EvalM α :=
  match resolver? with
  | none => do
    logFailure s!"No resolver for variable `{key}`."
    throw (.missingResolver key)
  | some resolver => do
    let asked ← get
    set (key :: asked)
    match resolver asked key with
    | .ok value => return value
    | .error text => throw (.resolver text)

/-- How an evaluation ended, and the keys it looked up in order. -/
structure Interpretation (α : Type) where
  outcome : Except EvaluationError α
  visited : List String

/-- Runs an evaluation from its start. -/
def EvalM.interpretation {α : Type} (work : EvalM α) : LogM (Interpretation α) := do
  let (outcome, asked) ← (ExceptT.run work).run []
  return ⟨outcome, asked.reverse⟩

end Formula
