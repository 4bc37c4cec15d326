import Formula.Arithmetic
import Formula.Proofs.Evaluation.Ending

/-!
# The walk of an arithmetic evaluation

`walk` keeps the operators it is in the middle of in frames. Going down into a tree comes to the same as
evaluating the tree by recursion and going up with its value (`walk_down`), whatever the frames are. So the
walk from the root is the recursion, with its lookups, its errors and what it reports.
-/

namespace Formula.Arithmetic

variable (table : OperatorTable) (table? : Option OperatorTable) (resolver? : Option (Resolver Int64))

/-- The value of a tree, by recursion on it. -/
def evaluate : Expr → EvalM Int64
  | .op key left right => do
    let first ← evaluate left
    let second ← evaluate right
    applyStep table key first second
  | .var key => EvalM.lookUp resolver? key
  | .int key => literal key

theorem walk_down (e : Expr) (frames : List Frame) :
    walk table resolver? (.down e) frames
      = evaluate table resolver? e >>= fun value => walk table resolver? (.up value) frames := by
  induction e generalizing frames with
  | op key left right left_ih right_ih =>
    -- The left operand is evaluated under one frame more, and so is the right one.
    rw [walk, left_ih, evaluate]
    simp only [bind_assoc]
    congr 1
    funext first
    rw [walk, right_ih]
    congr 1
    funext second
    rw [walk]
  | var key => rw [walk, evaluate]
  | int key => rw [walk, evaluate]

theorem interpret_eq_evaluate (e : Expr) :
    interpret (some table) resolver? e = evaluate table resolver? e := by
  have ends : (fun value => walk table resolver? (.up value) []) = pure := by
    funext value
    rw [walk]
  rw [interpret, walk_down, ends, bind_pure]

/-- What a tree comes to behind the lookups `asked`. The operands are evaluated from left to right, and an
operator that no table gives a meaning to fails before them. -/
def denote : Expr → List String → Ending Int64
  | .op key left right, asked =>
    match table? with
    | none => (.error (.missingOperatorTable key), asked)
    | some table =>
      (denote left asked).andThen fun first asked =>
        (denote right asked).andThen fun second asked => (table key first second, asked)
  | .var key, asked => consult resolver? key asked
  | .int key, asked => ((Decimal.read key).mapError (.malformedInteger key), asked)

theorem exists_evaluates_literal (key : String) (asked : List String) :
    ∃ events,
      Evaluates (literal key) asked ((Decimal.read key).mapError (.malformedInteger key), asked) events := by
  rw [literal]
  cases Decimal.read key with
  | ok value => exact ⟨_, .return_ok value asked⟩
  | error cause => exact ⟨_, .throw _ asked⟩

theorem exists_evaluates_applyStep (key : String) (left right : Int64) (asked : List String) :
    ∃ events, Evaluates (applyStep table key left right) asked (table key left right, asked) events := by
  rw [applyStep]
  cases table key left right with
  | ok value => exact ⟨_, (Evaluates.logStep _ asked).bind_ok (.return_ok value asked)⟩
  | error e => exact ⟨_, .throw e asked⟩

theorem exists_evaluates_evaluate (e : Expr) (asked : List String) :
    ∃ events, Evaluates (evaluate table resolver? e) asked (denote (some table) resolver? e asked) events := by
  induction e generalizing asked with
  | op key left right left_ih right_ih =>
    obtain ⟨_, reached⟩ := left_ih asked
    refine reached.andThen fun first asked => ?_
    obtain ⟨_, reached⟩ := right_ih asked
    refine reached.andThen fun second asked => ?_
    exact exists_evaluates_applyStep table key first second asked
  | var key => exact exists_evaluates_lookUp resolver? key asked
  | int key => exact exists_evaluates_literal key asked

theorem exists_evaluates_interpret (e : Expr) (asked : List String) :
    ∃ events, Evaluates (interpret table? resolver? e) asked (denote table? resolver? e asked) events := by
  cases table? with
  | some table =>
    rw [interpret_eq_evaluate]
    exact exists_evaluates_evaluate table resolver? e asked
  | none =>
    cases e with
    | op key left right => exact ⟨_, .throw _ asked⟩
    | var key => exact exists_evaluates_lookUp resolver? key asked
    | int key => exact exists_evaluates_literal key asked

/-- On every log, the outcome and the lookups in their order are those of the recursion. -/
theorem interpretation_eq_denote (e : Expr) (log : Log) :
    ((interpret table? resolver? e).interpretation.run log).1
      = ⟨(denote table? resolver? e []).1, (denote table? resolver? e []).2.reverse⟩ := by
  obtain ⟨_, evaluates⟩ := exists_evaluates_interpret table? resolver? e []
  exact interpretation_of_evaluates evaluates log

end Formula.Arithmetic
