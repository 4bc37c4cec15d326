import Formula.Proofs.Evaluation.Arithmetic
import Formula.Proofs.Evaluation.Boolean
import Formula.Proofs.Parser.Variables
import Formula.Proofs.RoundTrip

/-!
# The order of lookups

An evaluation asks for the variables of a tree from left to right, and the variables of a tree that was built
stand in it as in its source. So arithmetic looks its variables up in source order as far as it comes, and a
boolean formula leaves some of them out on the way (`visited_in_source_order`).
-/

namespace Formula

/-! ### Lookups of one evaluation behind another -/

section Looks

variable {α β : Type} {keys more asked : List String} {ending : Ending α} {rest : α → List String → Ending β}

/-- Behind the lookups `asked` some of `keys` have been looked up, in their order. -/
def LooksAmong (keys asked : List String) (ending : Ending α) : Prop :=
  ∃ looked : List String, looked.Sublist keys ∧ ending.2 = looked.reverse ++ asked

/-- Behind the lookups `asked` the first of `keys` have been looked up, and all of them if there is a value. -/
def LooksAhead (keys asked : List String) (ending : Ending α) : Prop :=
  ∃ looked, looked <+: keys ∧ (∀ value, ending.1 = .ok value → looked = keys) ∧
    ending.2 = looked.reverse ++ asked

theorem LooksAhead.of_eq (outcome : Except EvaluationError α) (asked : List String) :
    LooksAhead [] asked (outcome, asked) :=
  ⟨[], List.prefix_rfl, fun _ _ => rfl, rfl⟩

theorem LooksAhead.of_error (keys asked : List String) (e : EvaluationError) :
    LooksAhead keys asked ((.error e, asked) : Ending α) :=
  ⟨[], List.nil_prefix, nofun, rfl⟩

theorem LooksAmong.of_eq (keys asked : List String) (outcome : Except EvaluationError α) :
    LooksAmong keys asked (outcome, asked) :=
  ⟨[], List.nil_sublist keys, rfl⟩

theorem LooksAhead.looksAmong (looks : LooksAhead keys asked ending) : LooksAmong keys asked ending := by
  obtain ⟨looked, ahead, -, same⟩ := looks
  exact ⟨looked, ahead.sublist, same⟩

theorem LooksAhead.andThen (first : LooksAhead keys asked ending)
    (next : ∀ value later, LooksAhead more later (rest value later)) :
    LooksAhead (keys ++ more) asked (ending.andThen rest) := by
  obtain ⟨outcome, later⟩ := ending
  obtain ⟨looked, ahead, all, rfl⟩ := first
  cases outcome with
  | error e => exact ⟨looked, ahead.trans (List.prefix_append keys more), nofun, rfl⟩
  | ok value =>
    obtain rfl := all value rfl
    obtain ⟨other, goesOn, all, same⟩ := next value (looked.reverse ++ asked)
    refine ⟨looked ++ other, (List.prefix_append_right_inj looked).mpr goesOn, ?_, ?_⟩
    · intro last ends
      rw [all last ends]
    · rw [Ending.andThen, same, List.reverse_append, List.append_assoc]

theorem LooksAmong.andThen (first : LooksAmong keys asked ending)
    (next : ∀ value later, LooksAmong more later (rest value later)) :
    LooksAmong (keys ++ more) asked (ending.andThen rest) := by
  obtain ⟨outcome, later⟩ := ending
  obtain ⟨looked, among, rfl⟩ := first
  cases outcome with
  | error e => exact ⟨looked, among.trans (List.sublist_append_left keys more), rfl⟩
  | ok value =>
    obtain ⟨other, goesOn, same⟩ := next value (looked.reverse ++ asked)
    refine ⟨looked ++ other, among.append goesOn, ?_⟩
    rw [Ending.andThen, same, List.reverse_append, List.append_assoc]

theorem looksAhead_consult (resolver? : Option (Resolver α)) (key : String) (asked : List String) :
    LooksAhead [key] asked (consult resolver? key asked) := by
  cases resolver? with
  | none => exact .of_error [key] asked _
  | some resolver => exact ⟨[key], List.prefix_rfl, fun _ _ => rfl, rfl⟩

/-! The lookups of a whole run are those behind none. -/

variable {work : EvalM α} {events : List Event} (evaluates : Evaluates work [] ending events)
include evaluates

theorem LooksAhead.visited (looks : LooksAhead keys [] ending) (log : Log) :
    (work.interpretation.run log).1.visited <+: keys ∧
      ∀ value, (work.interpretation.run log).1.outcome = .ok value →
        (work.interpretation.run log).1.visited = keys := by
  obtain ⟨looked, ahead, all, same⟩ := looks
  rw [interpretation_of_evaluates evaluates, same, List.append_nil, List.reverse_reverse]
  exact ⟨ahead, all⟩

theorem LooksAmong.visited (looks : LooksAmong keys [] ending) (log : Log) :
    (work.interpretation.run log).1.visited.Sublist keys := by
  obtain ⟨looked, among, same⟩ := looks
  rw [interpretation_of_evaluates evaluates, same, List.append_nil, List.reverse_reverse]
  exact among

end Looks

/-! ### Lookups of a tree -/

theorem Arithmetic.looksAhead_denote (table? : Option OperatorTable) (resolver? : Option (Resolver Int64))
    (e : Expr) (asked : List String) : LooksAhead (e.keys .var) asked (denote table? resolver? e asked) := by
  induction e generalizing asked with
  | op key left right ihLeft ihRight =>
    cases table? with
    | none => exact .of_error _ asked _
    | some table =>
      rw [Expr.keys_op_of_ne_op (by decide)]
      refine (ihLeft asked).andThen fun first later => ?_
      have applied := (ihRight later).andThen fun second last => LooksAhead.of_eq (table key first second) last
      rwa [List.append_nil] at applied
  | var key => exact looksAhead_consult resolver? key asked
  | int key => exact .of_eq _ asked

theorem Boolean.looksAmong_shortCircuit {ρ : Type} (resolver? : Option (Resolver (Truth ρ))) (e : Expr)
    (asked : List String) : LooksAmong (e.keys .var) asked (shortCircuit resolver? e asked) := by
  induction e generalizing asked with
  | op key left right ihLeft ihRight =>
    cases found : Connective.ofKey? key with
    | none =>
      rw [shortCircuit_of_unknown resolver? found]
      exact .of_eq _ asked _
    | some connective =>
      rw [shortCircuit_of_ofKey? resolver? found, Expr.keys_op_of_ne_op (by decide)]
      refine (ihLeft asked).andThen fun truth later => ?_
      -- A right operand that is passed over leaves its variables out.
      split
      · exact .of_eq _ later _
      · exact ihRight later
  | var key => exact (looksAhead_consult resolver? key asked).looksAmong
  | int key => exact .of_eq _ asked _

/-! ### Lookups of a source -/

theorem length_le_leafCount_of_sublist {looked : List String} {e : Expr} (among : looked.Sublist (e.keys .var)) :
    looked.length ≤ e.leafCount := by
  have shorter := among.length_le
  rw [Expr.leafCount_eq_length_keys]
  omega

theorem Grammar.exists_tokens_of_build {grammar : Grammar} {source : String} {dropSigil : Bool} {log : Log}
    {tree : Expr} (built : ((grammar.build source dropSigil).run log).1 = .ok tree) :
    ∃ tokens, ((grammar.lexing.tokenize dropSigil source).run log).1 = .ok tokens ∧
      tree.keys .var = Token.texts .var tokens := by
  obtain ⟨tokens, tokenized, parsed⟩ := build_eq_ok_iff_parse.mp built
  exact ⟨tokens, tokenized, Parser.keys_of_parse (by decide) parsed⟩

/-- The keys that are looked up are variables of the source in its order. Arithmetic asks for the first of them
and, if it comes to a value, for all; a boolean formula asks for some. There are no more than leaves. -/
theorem visited_in_source_order {ρ : Type} (source : String) (dropSigil : Bool) (log log' : Log) :
    (∀ tree, ((Arithmetic.build Arithmetic.grammar source dropSigil).run log).1 = .ok tree →
      ∃ tokens, ((Arithmetic.grammar.lexing.tokenize dropSigil source).run log).1 = .ok tokens ∧
        ∀ resolver? run,
          ((Arithmetic.interpret (some Arithmetic.apply) resolver? tree).interpretation.run log').1 = run →
            run.visited <+: Token.texts .var tokens ∧
              (∀ value, run.outcome = .ok value → run.visited = Token.texts .var tokens) ∧
              run.visited.length ≤ tree.leafCount) ∧
    ∀ tree, ((Boolean.build Boolean.grammar source dropSigil).run log).1 = .ok tree →
      ∃ tokens, ((Boolean.grammar.lexing.tokenize dropSigil source).run log).1 = .ok tokens ∧
        ∀ (resolver? : Option (Resolver (Truth ρ))) run,
          ((Boolean.interpret resolver? tree).interpretation.run log').1 = run →
            run.visited.Sublist (Token.texts .var tokens) ∧ run.visited.length ≤ tree.leafCount := by
  constructor
  · intro tree built
    obtain ⟨tokens, tokenized, order⟩ := Grammar.exists_tokens_of_build (Arithmetic.build_eq_ok_iff.mp built).2
    refine ⟨tokens, tokenized, ?_⟩
    rintro resolver? _ rfl
    obtain ⟨_, evaluates⟩ := Arithmetic.exists_evaluates_interpret (some Arithmetic.apply) resolver? tree []
    have looks := Arithmetic.looksAhead_denote (some Arithmetic.apply) resolver? tree []
    obtain ⟨ahead, all⟩ := looks.visited evaluates log'
    rw [← order]
    exact ⟨ahead, all, length_le_leafCount_of_sublist ahead.sublist⟩
  · intro tree built
    obtain ⟨tokens, tokenized, order⟩ := Grammar.exists_tokens_of_build (Boolean.build_eq_ok built).2
    refine ⟨tokens, tokenized, ?_⟩
    rintro resolver? _ rfl
    obtain ⟨_, evaluates⟩ := Boolean.exists_evaluates_interpret resolver? tree []
    have looks := Boolean.looksAmong_shortCircuit resolver? tree []
    have among := looks.visited evaluates log'
    rw [← order]
    exact ⟨among, length_le_leafCount_of_sublist among⟩

/-- Arithmetic stops at a variable that is refused. A boolean formula passes over the right operand of a
conjunction that has failed. -/
theorem visited_beside_skipped :
    (((Arithmetic.build Arithmetic.grammar "($b - ($a * $b))" false).run {}).1 =
        .ok (.op "-" (.var "$b") (.op "*" (.var "$a") (.var "$b"))) ∧
      ((Arithmetic.interpret (some Arithmetic.apply) (some (.scripted [("$b", [.ok 2]), ("$a", [.error "none"])]))
        (.op "-" (.var "$b") (.op "*" (.var "$a") (.var "$b")))).interpretation.run {}).1 =
        ⟨.error (.resolver "none"), ["$b", "$a"]⟩ ∧
      ∃ tokens, ((Arithmetic.grammar.lexing.tokenize false "($b - ($a * $b))").run {}).1 = .ok tokens ∧
        ["$b", "$a"] <+: Token.texts .var tokens) ∧
    ((Boolean.build Boolean.grammar "(($x && $y) || $z)" false).run {}).1 =
        .ok (.op "||" (.op "&&" (.var "$x") (.var "$y")) (.var "$z")) ∧
      ((Boolean.interpret (some (.scripted [("$x", [.ok (.fails ())]), ("$z", [.ok .holds])]))
        (.op "||" (.op "&&" (.var "$x") (.var "$y")) (.var "$z"))).interpretation.run {}).1 =
        ⟨.ok .holds, ["$x", "$z"]⟩ ∧
      ∃ tokens, ((Boolean.grammar.lexing.tokenize false "(($x && $y) || $z)").run {}).1 = .ok tokens ∧
        ["$x", "$z"].Sublist (Token.texts .var tokens) := by
  have difference : ((Arithmetic.build Arithmetic.grammar "($b - ($a * $b))" false).run {}).1 =
      .ok (.op "-" (.var "$b") (.op "*" (.var "$a") (.var "$b"))) := by
    have a : Dialect.arithmetic.Lexeme .var ("$" ++ "a") := .var (by decide)
    have b : Dialect.arithmetic.Lexeme .var ("$" ++ "b") := .var (by decide)
    have writable : Dialect.arithmetic.Writable .arithmetic
        (.op "-" (.var "$b") (.op "*" (.var "$a") (.var "$b"))) :=
      ⟨by decide, by decide, b, by decide, by decide, a, b⟩
    have text : (Expr.op "-" (.var "$b") (.op "*" (.var "$a") (.var "$b"))).spell .input =
        "($b - ($a * $b))" := by decide
    rw [← text]
    exact Arithmetic.build_spell rfl writable Expr.noConfusion {}
  have disjunction : ((Boolean.build Boolean.grammar "(($x && $y) || $z)" false).run {}).1 =
      .ok (.op "||" (.op "&&" (.var "$x") (.var "$y")) (.var "$z")) := by
    have x : Dialect.logical.Lexeme .var ("$" ++ "x") := .var (by decide)
    have y : Dialect.logical.Lexeme .var ("$" ++ "y") := .var (by decide)
    have z : Dialect.logical.Lexeme .var ("$" ++ "z") := .var (by decide)
    have writable : Dialect.logical.Writable .logical
        (.op "||" (.op "&&" (.var "$x") (.var "$y")) (.var "$z")) :=
      ⟨by decide, by decide, ⟨by decide, by decide, x, y⟩, z⟩
    have text : (Expr.op "||" (.op "&&" (.var "$x") (.var "$y")) (.var "$z")).spell .input =
        "(($x && $y) || $z)" := by decide
    rw [← text]
    exact Boolean.build_spell rfl writable rfl {}
  have refused : ((Arithmetic.interpret (some Arithmetic.apply)
      (some (.scripted [("$b", [.ok 2]), ("$a", [.error "none"])]))
      (.op "-" (.var "$b") (.op "*" (.var "$a") (.var "$b")))).interpretation.run {}).1 =
      ⟨.error (.resolver "none"), ["$b", "$a"]⟩ := by
    obtain ⟨_, evaluates⟩ := Arithmetic.exists_evaluates_interpret (some Arithmetic.apply)
      (some (.scripted [("$b", [.ok 2]), ("$a", [.error "none"])]))
      (.op "-" (.var "$b") (.op "*" (.var "$a") (.var "$b"))) []
    rw [interpretation_of_evaluates evaluates]
    rfl
  have skipped : ((Boolean.interpret (some (.scripted [("$x", [.ok (.fails ())]), ("$z", [.ok .holds])]))
      (.op "||" (.op "&&" (.var "$x") (.var "$y")) (.var "$z"))).interpretation.run {}).1 =
      ⟨.ok .holds, ["$x", "$z"]⟩ := by
    obtain ⟨_, evaluates⟩ := Boolean.exists_evaluates_interpret
      (some (.scripted [("$x", [.ok (.fails ())]), ("$z", [.ok .holds])]))
      (.op "||" (.op "&&" (.var "$x") (.var "$y")) (.var "$z")) []
    rw [interpretation_of_evaluates evaluates]
    rfl
  obtain ⟨first, tokenized, ahead⟩ :=
    (@visited_in_source_order Unit "($b - ($a * $b))" false {} {}).1 _ difference
  obtain ⟨second, tokenizedToo, among⟩ :=
    (@visited_in_source_order Unit "(($x && $y) || $z)" false {} {}).2 _ disjunction
  exact ⟨⟨difference, refused, first, tokenized, (ahead _ _ refused).1⟩,
    disjunction, skipped, second, tokenizedToo, (among _ _ skipped).1⟩

end Formula
