import Formula.Proofs.Evaluation.Arithmetic
import Formula.Proofs.Evaluation.Boolean
import Formula.Proofs.Sigil
import Formula.Proofs.Text.Decimal

/-!
# How evaluation fails

An evaluation that fails does so at one node of its tree: a variable that is not resolved, a literal that is no
number or an operator that cannot be applied (`Arithmetic.origin_of_denote`, `Boolean.origin_of_shortCircuit`).
The operators and literals that a grammar lets into a tree are known to its evaluation. So of what can go wrong
with a node, only little can with a tree that was built (`failure_of_build`).
-/

namespace Formula

variable {ρ : Type}

theorem eq_error_of_evaluates {α : Type} {work : EvalM α} {ending : Ending α} {events : List Event}
    (evaluates : Evaluates work [] ending events) {log : Log} {run : Interpretation α}
    (ran : (work.interpretation.run log).1 = run) {error : EvaluationError}
    (fails : run.outcome = .error error) : ending = (.error error, run.visited.reverse) := by
  rw [interpretation_of_evaluates evaluates] at ran
  subst ran
  rw [List.reverse_reverse]
  exact Prod.ext fails rfl

/-! ### Variables -/

/-- How a lookup of one of `keys` fails, as the last of the lookups `later`. -/
inductive LookupFailure {α : Type} (resolver? : Option (Resolver α)) (keys : List String) :
    List String → EvaluationError → Prop where
  | missing {key : String} {later : List String} (absent : resolver? = none) (member : key ∈ keys) :
      LookupFailure resolver? keys later (.missingResolver key)
  | refused {resolver : Resolver α} {key text : String} {asked : List String}
      (present : resolver? = some resolver) (member : key ∈ keys) (answer : resolver asked key = .error text) :
      LookupFailure resolver? keys (key :: asked) (.resolver text)

section Lookup

variable {α : Type} {resolver? : Option (Resolver α)} {keys more later : List String} {error : EvaluationError}

theorem LookupFailure.mono (among : keys ⊆ more) (fails : LookupFailure resolver? keys later error) :
    LookupFailure resolver? more later error := by
  cases fails with
  | missing absent member => exact .missing absent (among member)
  | refused present member answer => exact .refused present (among member) answer

theorem lookupFailure_of_consult {key : String} {asked : List String}
    (fails : consult resolver? key asked = (.error error, later)) :
    LookupFailure resolver? [key] later error := by
  cases resolver? with
  | none =>
    cases fails
    exact .missing rfl (List.mem_singleton_self key)
  | some resolver =>
    dsimp only [consult] at fails
    cases answer : resolver asked key with
    | ok value =>
      rw [answer] at fails
      cases fails
    | error text =>
      rw [answer] at fails
      cases fails
      exact .refused rfl (List.mem_singleton_self key) answer

end Lookup

/-! ### Nodes -/

section Nodes

variable {e other : Expr} {later asked : List String} {error : EvaluationError}

/-- The node of a tree at which an evaluation fails, with the lookups behind it. -/
inductive Arithmetic.Origin (table : OperatorTable) (resolver? : Option (Resolver Int64)) (e : Expr)
    (later : List String) : EvaluationError → Prop where
  | lookup {error : EvaluationError} (fails : LookupFailure resolver? (e.keys .var) later error) :
      Origin table resolver? e later error
  | literal {key : String} {cause : Decimal.Flaw} (member : key ∈ e.keys .int)
      (malformed : Decimal.read key = .error cause) :
      Origin table resolver? e later (.malformedInteger key cause)
  | operator {key : String} {left right : Int64} {error : EvaluationError} (member : key ∈ e.keys .op)
      (fails : table key left right = .error error) : Origin table resolver? e later error

theorem Arithmetic.Origin.mono {table : OperatorTable} {resolver? : Option (Resolver Int64)}
    (part : ∀ kind, e.keys kind ⊆ other.keys kind) (origin : Origin table resolver? e later error) :
    Origin table resolver? other later error := by
  cases origin with
  | lookup fails => exact .lookup (fails.mono (part .var))
  | literal member malformed => exact .literal (part .int member) malformed
  | operator member fails => exact .operator (part .op member) fails

/-- The node of a tree at which a boolean evaluation fails, with the lookups behind it. -/
inductive Boolean.Origin (resolver? : Option (Resolver (Truth ρ))) (e : Expr) (later : List String) :
    EvaluationError → Prop where
  | lookup {error : EvaluationError} (fails : LookupFailure resolver? (e.keys .var) later error) :
      Origin resolver? e later error
  | integer {key : String} (member : key ∈ e.keys .int) : Origin resolver? e later (.unexpectedNode .int key)
  | operator {key : String} (member : key ∈ e.keys .op) (unknown : Connective.ofKey? key = none) :
      Origin resolver? e later (.unknownOperator key)

theorem Boolean.Origin.mono {resolver? : Option (Resolver (Truth ρ))}
    (part : ∀ kind, e.keys kind ⊆ other.keys kind) (origin : Origin resolver? e later error) :
    Origin resolver? other later error := by
  cases origin with
  | lookup fails => exact .lookup (fails.mono (part .var))
  | integer member => exact .integer (part .int member)
  | operator member unknown => exact .operator (part .op member) unknown

theorem Arithmetic.origin_of_denote {table : OperatorTable} {resolver? : Option (Resolver Int64)}
    (fails : denote (some table) resolver? e asked = (.error error, later)) :
    Origin table resolver? e later error := by
  induction e generalizing asked with
  | op key left right ihLeft ihRight =>
    unfold denote at fails
    -- The left operand fails, or behind its value the right one, or behind both the operator itself.
    rcases Ending.eq_error_of_andThen fails with first | ⟨value, between, -, fails⟩
    · exact (ihLeft first).mono (Expr.keys_left_subset key left right)
    rcases Ending.eq_error_of_andThen fails with second | ⟨other, last, -, fails⟩
    · exact (ihRight second).mono (Expr.keys_right_subset key left right)
    · exact .operator (Expr.mem_keys_op key left right) (Prod.mk.inj fails).1
  | var key => exact .lookup (lookupFailure_of_consult fails)
  | int key =>
    unfold denote at fails
    cases read : Decimal.read key with
    | ok value =>
      rw [read] at fails
      cases fails
    | error cause =>
      rw [read] at fails
      cases fails
      exact .literal (List.mem_singleton_self key) read

theorem Boolean.origin_of_shortCircuit {resolver? : Option (Resolver (Truth ρ))}
    (fails : shortCircuit resolver? e asked = (.error error, later)) : Origin resolver? e later error := by
  induction e generalizing asked with
  | op key left right ihLeft ihRight =>
    cases found : Connective.ofKey? key with
    | none =>
      rw [shortCircuit_of_unknown resolver? found] at fails
      cases fails
      exact .operator (Expr.mem_keys_op key left right) found
    | some connective =>
      rw [shortCircuit_of_ofKey? resolver? found] at fails
      rcases Ending.eq_error_of_andThen fails with first | ⟨truth, between, -, fails⟩
      · exact (ihLeft first).mono (Expr.keys_left_subset key left right)
      split at fails
      · cases fails
      · exact (ihRight fails).mono (Expr.keys_right_subset key left right)
  | var key => exact .lookup (lookupFailure_of_consult fails)
  | int key =>
    cases fails
    exact .integer (List.mem_singleton_self key)

end Nodes

/-! ### Nodes that are built -/

namespace Dialect

variable {d : Dialect}

theorem known_of_mem_keys {table : PrecedenceTable} {e : Expr} (writable : d.Writable table e) :
    (∀ key ∈ e.keys .op, table.contains key = true) ∧ ∀ key ∈ e.keys .int, d.Lexeme .int key := by
  induction e with
  | op key left right ihLeft ihRight =>
    obtain ⟨-, listed, left, right⟩ := writable
    obtain ⟨opLeft, intLeft⟩ := ihLeft left
    obtain ⟨opRight, intRight⟩ := ihRight right
    constructor
    · simpa only [Expr.keys, if_true, List.forall_mem_append, List.forall_mem_singleton] using
        ⟨opLeft, listed, opRight⟩
    · rw [Expr.keys_op_of_ne_op (by decide), List.forall_mem_append]
      exact ⟨intLeft, intRight⟩
  | var key => exact ⟨List.forall_mem_nil _, List.forall_mem_nil _⟩
  | int key => exact ⟨List.forall_mem_nil _, List.forall_mem_singleton.mpr writable⟩

/-- The operators and integers of a tree do not depend on whether the sigils were dropped. -/
theorem known_of_build {grammar : Grammar} (serves : d.Serves grammar)
    (unlisted : grammar.precedence.get? ")" = none) {source : String} {dropSigil : Bool} {log : Log}
    {tree : Expr} (built : ((grammar.build source dropSigil).run log).1 = .ok tree) :
    (∀ key ∈ tree.keys .op, grammar.precedence.contains key = true) ∧
      ∀ key ∈ tree.keys .int, d.Lexeme .int key := by
  cases dropSigil with
  | false => exact known_of_mem_keys (writable_of_build serves unlisted built)
  | true =>
    obtain ⟨kept, builtKept, rfl⟩ := exists_build_keeping serves.lexing_eq built
    rw [Expr.keys_rename_of_ne_var (by decide), Expr.keys_rename_of_ne_var (by decide)]
    exact known_of_mem_keys (writable_of_build serves unlisted builtKept)

end Dialect

/-! ### Failures -/

namespace Arithmetic

theorem eq_divisionByZero_of_apply {key : String} (listed : PrecedenceTable.arithmetic.contains key = true)
    {left right : Int64} {error : EvaluationError} (fails : apply key left right = .error error) :
    (key = "/" ∨ key = "%") ∧ error = .divisionByZero key left 0 := by
  have known : key ∈ ["%", "/", "*", "-", "+"] := PrecedenceTable.mem_of_contains listed
  unfold apply at fails
  split at fails
  · cases fails
  · cases fails
  · cases fails
  · split at fails
    · rename_i zero
      cases fails
      rw [zero]
      exact ⟨.inl rfl, rfl⟩
    · cases fails
  · split at fails
    · rename_i zero
      cases fails
      rw [zero]
      exact ⟨.inr rfl, rfl⟩
    · cases fails
  · simp_all

/-- How the evaluation of a tree that was built fails, behind the lookups `later`. -/
inductive Failure (resolver? : Option (Resolver Int64)) (tree : Expr) (later : List String) :
    EvaluationError → Prop where
  | lookup {error : EvaluationError} (fails : LookupFailure resolver? (tree.keys .var) later error) :
      Failure resolver? tree later error
  | malformedInteger {literal : String} (member : literal ∈ tree.keys .int) (nonempty : literal ≠ "")
      (digits : ∀ c ∈ literal.toList, c.isDigit = true)
      (large : Int64.maxValue.toInt < Nat.ofDigitChars 10 literal.toList 0) :
      Failure resolver? tree later (.malformedInteger literal .tooLarge)
  | divisionByZero {operator : String} {left : Int64} (member : operator ∈ tree.keys .op)
      (divides : operator = "/" ∨ operator = "%") :
      Failure resolver? tree later (.divisionByZero operator left 0)

variable {resolver? : Option (Resolver Int64)} {tree : Expr} {later : List String} {error : EvaluationError}

theorem failure_of_origin (operators : ∀ key ∈ tree.keys .op, PrecedenceTable.arithmetic.contains key = true)
    (integers : ∀ key ∈ tree.keys .int, Dialect.arithmetic.Lexeme .int key)
    (origin : Origin apply resolver? tree later error) : Failure resolver? tree later error := by
  cases origin with
  | lookup fails => exact .lookup fails
  | @literal key cause member malformed =>
    cases integers key member with
    | int _ nonempty digits =>
      rw [Decimal.read_of_digits nonempty digits] at malformed
      split at malformed
      · cases malformed
      · rename_i outside
        cases malformed
        rw [Decimal.inRange_natCast, Int.not_le] at outside
        exact .malformedInteger member nonempty digits outside
  | @operator key left right error member fails =>
    obtain ⟨divides, rfl⟩ := eq_divisionByZero_of_apply (operators key member) fails
    exact .divisionByZero member divides

end Arithmetic

theorem Boolean.lookupFailure_of_origin {resolver? : Option (Resolver (Truth ρ))} {tree : Expr}
    {later : List String} {error : EvaluationError}
    (operators : ∀ key ∈ tree.keys .op, PrecedenceTable.logical.contains key = true)
    (integers : ∀ key ∈ tree.keys .int, Dialect.logical.Lexeme .int key)
    (origin : Origin resolver? tree later error) : LookupFailure resolver? (tree.keys .var) later error := by
  cases origin with
  | lookup fails => exact fails
  | @integer key member =>
    cases integers key member with
    | int known => cases known
  | @operator key member unknown =>
    have known : key ∈ ["&&", "||"] := PrecedenceTable.mem_of_contains (operators key member)
    have unknown := Connective.ofKey?_eq_none_iff.mp unknown
    simp_all

/-- A tree of the usual arithmetic fails for a variable without a value, for a literal that is too large or for a
zero divisor. A tree of the usual boolean formulas fails for a variable without a value. -/
theorem failure_of_build (source : String) (dropSigil : Bool) (log log' : Log) :
    (∀ tree, ((Arithmetic.build Arithmetic.grammar source dropSigil).run log).1 = .ok tree →
      ∀ resolver? run error,
        ((Arithmetic.interpret (some Arithmetic.apply) resolver? tree).interpretation.run log').1 = run →
          run.outcome = .error error → Arithmetic.Failure resolver? tree run.visited.reverse error) ∧
    ∀ tree, ((Boolean.build Boolean.grammar source dropSigil).run log).1 = .ok tree →
      ∀ (resolver? : Option (Resolver (Truth ρ))) run error,
        ((Boolean.interpret resolver? tree).interpretation.run log').1 = run →
          run.outcome = .error error → LookupFailure resolver? (tree.keys .var) run.visited.reverse error := by
  constructor
  · intro tree built resolver? run error ran fails
    obtain ⟨operators, integers⟩ := Dialect.known_of_build (Dialect.serves_arithmetic .arithmetic) rfl
      (Arithmetic.build_eq_ok_iff.mp built).2
    obtain ⟨_, evaluates⟩ := Arithmetic.exists_evaluates_interpret (some Arithmetic.apply) resolver? tree []
    have reached := eq_error_of_evaluates evaluates ran fails
    exact Arithmetic.failure_of_origin operators integers (Arithmetic.origin_of_denote reached)
  · intro tree built resolver? run error ran fails
    obtain ⟨operators, integers⟩ := Dialect.known_of_build (Dialect.serves_logical .logical) rfl
      (Boolean.build_eq_ok built).2
    obtain ⟨_, evaluates⟩ := Boolean.exists_evaluates_interpret resolver? tree []
    have reached := eq_error_of_evaluates evaluates ran fails
    exact Boolean.lookupFailure_of_origin operators integers (Boolean.origin_of_shortCircuit reached)

/-- A divisor that only the answer of the resolver makes zero, and a variable that is refused. -/
theorem failure_of_zero_remainder :
    (((Arithmetic.build Arithmetic.grammar "(7 % (9 - $b))" false).run {}).1 =
        .ok (.op "%" (.int "7") (.op "-" (.int "9") (.var "$b"))) ∧
      ((Arithmetic.interpret (some Arithmetic.apply) (some (.scripted [("$b", [.ok 9])]))
        (.op "%" (.int "7") (.op "-" (.int "9") (.var "$b")))).interpretation.run {}).1 =
        ⟨.error (.divisionByZero "%" 7 0), ["$b"]⟩ ∧
      Arithmetic.Failure (some (.scripted [("$b", [.ok 9])]))
        (.op "%" (.int "7") (.op "-" (.int "9") (.var "$b"))) ["$b"] (.divisionByZero "%" 7 0)) ∧
    ((Boolean.build Boolean.grammar "($p && $q)" false).run {}).1 = .ok (.op "&&" (.var "$p") (.var "$q")) ∧
      ((Boolean.interpret (some (.scripted [("$p", [.ok .holds]), ("$q", [.error "none"])]))
        (.op "&&" (.var "$p") (.var "$q")) : EvalM (Truth Unit)).interpretation.run {}).1 =
        ⟨.error (.resolver "none"), ["$p", "$q"]⟩ ∧
      LookupFailure (some (.scripted [("$p", [.ok (.holds : Truth Unit)]), ("$q", [.error "none"])]))
        ["$p", "$q"] ["$q", "$p"] (.resolver "none") := by
  have remainder : ((Arithmetic.build Arithmetic.grammar "(7 % (9 - $b))" false).run {}).1 =
      .ok (.op "%" (.int "7") (.op "-" (.int "9") (.var "$b"))) := by
    have b : Dialect.arithmetic.Lexeme .var ("$" ++ "b") := .var (by decide)
    have seven : Dialect.arithmetic.Lexeme .int "7" := .int rfl (by decide) (by decide)
    have nine : Dialect.arithmetic.Lexeme .int "9" := .int rfl (by decide) (by decide)
    have writable : Dialect.arithmetic.Writable .arithmetic
        (.op "%" (.int "7") (.op "-" (.int "9") (.var "$b"))) :=
      ⟨by decide, by decide, seven, by decide, by decide, nine, b⟩
    have text : (Expr.op "%" (.int "7") (.op "-" (.int "9") (.var "$b"))).spell .input =
        "(7 % (9 - $b))" := by decide
    rw [← text]
    exact Arithmetic.build_spell rfl writable Expr.noConfusion {}
  have conjunction : ((Boolean.build Boolean.grammar "($p && $q)" false).run {}).1 =
      .ok (.op "&&" (.var "$p") (.var "$q")) := by
    have p : Dialect.logical.Lexeme .var ("$" ++ "p") := .var (by decide)
    have q : Dialect.logical.Lexeme .var ("$" ++ "q") := .var (by decide)
    have writable : Dialect.logical.Writable .logical (.op "&&" (.var "$p") (.var "$q")) :=
      ⟨by decide, by decide, p, q⟩
    have text : (Expr.op "&&" (.var "$p") (.var "$q")).spell .input = "($p && $q)" := by decide
    rw [← text]
    exact Boolean.build_spell rfl writable rfl {}
  have zero : ((Arithmetic.interpret (some Arithmetic.apply) (some (.scripted [("$b", [.ok 9])]))
      (.op "%" (.int "7") (.op "-" (.int "9") (.var "$b")))).interpretation.run {}).1 =
      ⟨.error (.divisionByZero "%" 7 0), ["$b"]⟩ := by
    obtain ⟨_, evaluates⟩ := Arithmetic.exists_evaluates_interpret (some Arithmetic.apply)
      (some (.scripted [("$b", [.ok 9])])) (.op "%" (.int "7") (.op "-" (.int "9") (.var "$b"))) []
    rw [interpretation_of_evaluates evaluates]
    rfl
  have refused : ((Boolean.interpret (some (.scripted [("$p", [.ok .holds]), ("$q", [.error "none"])]))
      (.op "&&" (.var "$p") (.var "$q")) : EvalM (Truth Unit)).interpretation.run {}).1 =
      ⟨.error (.resolver "none"), ["$p", "$q"]⟩ := by
    obtain ⟨_, evaluates⟩ := Boolean.exists_evaluates_interpret
      (some (.scripted [("$p", [.ok (.holds : Truth Unit)]), ("$q", [.error "none"])]))
      (.op "&&" (.var "$p") (.var "$q")) []
    rw [interpretation_of_evaluates evaluates]
    rfl
  have divides := (@failure_of_build Unit "(7 % (9 - $b))" false {} {}).1 _ remainder _ _ _ zero rfl
  have refuses := (@failure_of_build Unit "($p && $q)" false {} {}).2 _ conjunction _ _ _ refused rfl
  exact ⟨⟨remainder, zero, divides⟩, conjunction, refused, refuses⟩

end Formula
