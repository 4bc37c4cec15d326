import Mathlib.Logic.Function.Basic
import Formula.Proofs.Evaluation.Arithmetic
import Formula.Proofs.Expr.Keys

/-!
# Trees in place of variables

When a variable always has the same answer, it makes no difference what was looked up before a tree: the tree has
one result (`outcome_eq_result`), which is made of the results of its operands. So a variable may be exchanged for
a tree that comes to its answer, and the whole comes to the same, errors included (`outcome_subst`).
-/

namespace Formula

theorem Ending.fst_andThen {α β : Type} {ending : Ending α} {next : α → List String → Ending β}
    {after : α → Except EvaluationError β} (same : ∀ value asked, (next value asked).1 = after value) :
    (ending.andThen next).1 = ending.1 >>= after := by
  obtain ⟨outcome, asked⟩ := ending
  cases outcome with
  | error e => rfl
  | ok value => exact same value asked

/-- The tree with a tree in place of each variable. -/
def Expr.subst (trees : String → Expr) : Expr → Expr
  | .op key left right => .op key (subst trees left) (subst trees right)
  | .var key => trees key
  | .int key => .int key

namespace Arithmetic

variable {table? : Option OperatorTable} {answers : String → Except String Int64}

/-- What a tree comes to when the answer to a lookup does not depend on those before. -/
def result (table? : Option OperatorTable) (answers : String → Except String Int64) :
    Expr → Except EvaluationError Int64
  | .op key left right =>
    match table? with
    | none => .error (.missingOperatorTable key)
    | some table => do
      let first ← result table? answers left
      let second ← result table? answers right
      table key first second
  | .var key => (answers key).mapError .resolver
  | .int key => (Decimal.read key).mapError (.malformedInteger key)

theorem fst_denote (e : Expr) (asked : List String) :
    (denote table? (some fun _ => answers) e asked).1 = result table? answers e := by
  induction e generalizing asked with
  | op key left right ihLeft ihRight =>
    cases table? with
    | none => rfl
    | some table =>
      rw [denote, result, ← ihLeft asked]
      refine Ending.fst_andThen fun first later => ?_
      rw [← ihRight later]
      exact Ending.fst_andThen fun second last => rfl
  | var key => rfl
  | int key => rfl

theorem outcome_eq_result (e : Expr) (log : Log) :
    ((interpret table? (some fun _ => answers) e).interpretation.run log).1.outcome = result table? answers e := by
  obtain ⟨_, evaluates⟩ := exists_evaluates_interpret table? (some fun _ => answers) e []
  rw [interpretation_of_evaluates evaluates]
  exact fst_denote e []

/-- The trees have to come to the answers for the variables that they stand for, be it a value or a refusal. -/
theorem result_subst {trees : String → Expr} {values : String → Except String Int64} {e : Expr}
    (same : ∀ key ∈ e.keys .var, result table? answers (trees key) = (values key).mapError .resolver) :
    result table? answers (e.subst trees) = result table? values e := by
  induction e with
  | op key left right ihLeft ihRight =>
    rw [Expr.keys_op_of_ne_op (by decide), List.forall_mem_append] at same
    cases table? with
    | none => rfl
    | some table => rw [Expr.subst, result, result, ihLeft same.1, ihRight same.2]
  | var key => exact same key (List.mem_singleton_self key)
  | int key => rfl

/-- Trees that come to the values of the variables may stand in their place. In particular a literal or any other
part of a tree may be exchanged for a variable with its value, whatever becomes of the other variables. -/
theorem outcome_subst (table? : Option OperatorTable) (answers : String → Except String Int64) (e : Expr)
    (log : Log) :
    (∀ (trees : String → Expr) (values : String → Int64),
      (∀ key ∈ e.keys .var,
        ((interpret table? (some fun _ => answers) (trees key)).interpretation.run log).1.outcome =
          .ok (values key)) →
      ((interpret table? (some fun _ => answers) (e.subst trees)).interpretation.run log).1.outcome =
        ((interpret table? (some fun _ key => .ok (values key)) e).interpretation.run log).1.outcome) ∧
    ∀ (key : String) (part : Expr) (value : Int64),
      ((interpret table? (some fun _ => answers) part).interpretation.run log).1.outcome = .ok value →
      ((interpret table? (some fun _ => answers) (e.subst (Function.update .var key part))).interpretation.run
          log).1.outcome =
        ((interpret table? (some fun _ => Function.update answers key (.ok value)) e).interpretation.run
          log).1.outcome := by
  simp only [outcome_eq_result]
  constructor
  · intro trees values valued
    exact result_subst valued
  · intro key part value valued
    apply result_subst
    intro other _
    by_cases same : other = key
    · rw [same, Function.update_self, Function.update_self, valued]
      rfl
    · rw [Function.update_of_ne same, Function.update_of_ne same]
      rfl

/-- A product in place of the dividend, and a literal in place of the divisor's only variable. -/
theorem outcome_of_substituted_quotient :
    ((interpret (some apply) (some fun _ _ => .ok 7) (.op "*" (.int "2") (.var "$a"))).interpretation.run
      {}).1.outcome = .ok 14 ∧
    ((interpret (some apply) (some fun _ _ => .ok 7) (.int "3")).interpretation.run {}).1.outcome = .ok 3 ∧
    ((interpret (some apply) (some fun _ _ => .ok 7)
      (.op "/" (.op "*" (.int "2") (.var "$a")) (.op "-" (.int "3") (.int "3")))).interpretation.run {}).1.outcome =
        .error (.divisionByZero "/" 14 0) ∧
    ((interpret (some apply) (some fun _ _ => .ok 7) (.op "-" (.int "3") (.var "$x"))).interpretation.run
      {}).1.outcome =
      ((interpret (some apply) (some fun _ => Function.update (fun _ => .ok 7) "$y" (.ok 3))
        (.op "-" (.var "$y") (.var "$x"))).interpretation.run {}).1.outcome := by
  have product : ((interpret (some apply) (some fun _ _ => .ok 7)
      (.op "*" (.int "2") (.var "$a"))).interpretation.run {}).1.outcome = .ok 14 := by
    rw [outcome_eq_result]
    rfl
  have literal : ((interpret (some apply) (some fun _ _ => .ok 7) (.int "3")).interpretation.run
      {}).1.outcome = .ok 3 := by
    rw [outcome_eq_result]
    rfl
  have valued : ∀ key ∈ (Expr.op "/" (.var "$x") (.op "-" (.var "$y") (.int "3"))).keys .var,
      ((interpret (some apply) (some fun _ _ => .ok 7)
        (if key = "$x" then .op "*" (.int "2") (.var "$a") else .int "3")).interpretation.run {}).1.outcome =
          .ok (if key = "$x" then 14 else 3) := by
    intro key _
    split
    · exact product
    · exact literal
  have quotient : ((interpret (some apply) (some fun _ key => .ok (if key = "$x" then 14 else 3))
      (.op "/" (.var "$x") (.op "-" (.var "$y") (.int "3")))).interpretation.run {}).1.outcome =
        .error (.divisionByZero "/" 14 0) := by
    obtain ⟨_, evaluates⟩ := exists_evaluates_interpret (some apply)
      (some fun _ key => .ok (if key = "$x" then 14 else 3))
      (.op "/" (.var "$x") (.op "-" (.var "$y") (.int "3"))) []
    rw [interpretation_of_evaluates evaluates]
    rfl
  exact ⟨product, literal,
    ((outcome_subst (some apply) (fun _ => .ok 7) (.op "/" (.var "$x") (.op "-" (.var "$y") (.int "3"))) {}).1
      (fun key => if key = "$x" then .op "*" (.int "2") (.var "$a") else .int "3") _ valued).trans quotient,
    (outcome_subst (some apply) (fun _ => .ok 7) (.op "-" (.var "$y") (.var "$x")) {}).2 "$y" (.int "3") 3 literal⟩

end Arithmetic

end Formula
