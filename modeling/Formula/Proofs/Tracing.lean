import Mathlib.Control.Monad.Basic
import Formula.Proofs.Token.Calls
import Formula.Proofs.Verbosity

/-!
# Steps on the log

A log that keeps steps shows how a tree was built and evaluated. Both go from the operands of an operator to the
operator, however precedences have grouped the tokens and whatever the operands come to: the lines stand on the
log as the operators stand in the tree in post-order (`trace_of_success`).
-/

namespace Formula

/-- The operators of a tree, each behind those of its operands. -/
def Expr.postorder : Expr → List String
  | .op key left right => postorder left ++ (postorder right ++ [key])
  | .var _ => []
  | .int _ => []

theorem Log.record_steps {log : Log} (verbose : 5 ≤ log.verbosity) (messages : List String) :
    log.record (messages.map Event.step) = log.append (messages.map (log.line .debug)) := by
  have all : Event.kept log.verbosity (messages.map Event.step) = messages.map Event.step := by
    apply List.filter_eq_self.mpr
    intro event member
    obtain ⟨message, -, rfl⟩ := List.mem_map.mp member
    exact decide_eq_true verbose
  rw [record_eq_append, all, List.map_map]
  rfl

/-! ### Tokens -/

theorem Lexing.events_of_lexes {lexing : Lexing} {dropSigil : Bool} {lexer : Lexer}
    {ending : Lexer.Result (List Token)} {events : List Event} {tokens : List Token}
    (lexes : Lexes lexing dropSigil lexer ending events) (outcome : ending.1 = .ok tokens) :
    events = (tokens.map Token.lexedLine).map Event.step := by
  induction lexes generalizing tokens with
  | ends _ =>
    cases outcome
    rfl
  | fails _ => cases outcome
  | @token _ _ _ token result _ _ _ ih =>
    cases result with
    | error e => cases outcome
    | ok rest =>
      cases outcome
      rw [ih rfl]
      rfl

/-! ### Folds -/

namespace PrecedenceTable

variable {table : PrecedenceTable}

def foldLine? (table : PrecedenceTable) (key : String) : Option String :=
  (table.get? key).map fun precedence => s!"Folding `{key}` at precedence {toString precedence.toNat}."

/-- The lines for folding a tree, one for each operator of it. -/
def Folds (table : PrecedenceTable) (tree : Expr) (lines : List String) : Prop :=
  tree.postorder.map table.foldLine? = lines.map some

theorem Folds.of_leaf? {kind : Kind} {key : String} {tree : Expr} (leaf : Expr.leaf? kind key = some tree) :
    table.Folds tree [] := by
  cases kind with
  | op => cases leaf
  | var =>
    cases leaf
    rfl
  | int =>
    cases leaf
    rfl

theorem Folds.op {operator : Token} {precedence : UInt16} {left right : Expr} {before after : List String}
    (found : table.lookUp operator = some precedence) (first : table.Folds left before)
    (second : table.Folds right after) :
    table.Folds (.op operator.text left right) (before ++ (after ++ [Parser.foldLine operator precedence])) := by
  obtain ⟨-, listed⟩ := lookUp_eq_some_iff.mp found
  simp only [Folds] at first second ⊢
  simp [Expr.postorder, first, second, foldLine?, listed, Parser.foldLine]

end PrecedenceTable

namespace Parser

variable {parser : Parser}

/-- The lines that a call sends for the operators of its tree. A climb adds to those for the tree on its left. -/
def Call.Folds (table : PrecedenceTable) (tree : Expr) (lines : List String) : Call → Prop
  | operand .. => table.Folds tree lines
  | climb _ left _ => ∀ before, table.Folds left before → table.Folds tree (before ++ lines)
  | expression .. => table.Folds tree lines

theorem folds_of_reads {call : Call} {outcome : Outcome} {events : List Event}
    (reads : Reads parser call outcome events) :
    ∀ tree rest, outcome = .ok (tree, rest) →
      ∃ lines, events = lines.map Event.step ∧ call.Folds parser.precedence tree lines := by
  induction reads with
  | leaf found =>
    rintro tree rest ⟨⟩
    obtain ⟨-, leaf⟩ := leaf?_eq_some_iff.mp found
    exact ⟨[], rfl, .of_leaf? leaf⟩
  | group _ _ _ inner =>
    rintro tree rest ⟨⟩
    exact inner _ _ rfl
  | stop =>
    rintro tree rest ⟨⟩
    exact ⟨[], rfl, fun before folds => by rwa [List.append_nil]⟩
  | @fold _ _ _ operator _ _ precedence _ _ _ found _ _ _ operand onward =>
    intro tree rest outcome
    obtain ⟨after, rfl, right⟩ := operand _ _ rfl
    obtain ⟨more, rfl, whole⟩ := onward tree rest outcome
    refine ⟨after ++ foldLine operator precedence :: more, by simp, fun before left => ?_⟩
    -- The operator is folded behind both of its operands, and before those that the climb still comes to.
    have folded := whole _ (PrecedenceTable.Folds.op found left right)
    simpa using folded
  | expression _ _ operand onward =>
    intro tree rest outcome
    obtain ⟨before, rfl, left⟩ := operand _ _ rfl
    obtain ⟨more, rfl, whole⟩ := onward tree rest outcome
    exact ⟨before ++ more, by simp, whole before left⟩
  | _ => rintro tree rest ⟨⟩

theorem exists_folds_of_parse {tokens : List Token} {tree : Expr} {log : Log}
    (parsed : ((parser.parse tokens).run log).1 = .ok tree) :
    ∃ folds, parser.precedence.Folds tree folds ∧
      Emits (parser.parse tokens).run (.ok tree)
        ((folds ++ [s!"Successfully parsed expression: {tree.infixText}"]).map Event.step) := by
  cases tokens with
  | nil => cases parsed
  | cons token rest =>
    obtain ⟨events, reads⟩ := parse_eq_ok_iff.mp parsed
    obtain ⟨folds, rfl, folded⟩ := folds_of_reads reads _ _ rfl
    refine ⟨folds, folded, ?_⟩
    rw [List.map_append]
    exact emits_parse reads

end Parser

theorem Grammar.exists_trace_of_build {grammar : Grammar} {source : String} {dropSigil : Bool} {log : Log}
    {tree : Expr} (built : ((grammar.build source dropSigil).run log).1 = .ok tree) :
    ∃ tokens folds, ((grammar.lexing.tokenize dropSigil source).run log).1 = .ok tokens ∧
      (tokens.Pairwise fun first second => first.offset < second.offset) ∧
      grammar.precedence.Folds tree folds ∧
      Emits (grammar.build source dropSigil).run (.ok tree)
        ((tokens.map Token.lexedLine ++ (folds ++ [s!"Successfully parsed expression: {tree.infixText}"])).map
          Event.step) := by
  obtain ⟨tokens, tokenized, parsed⟩ := build_eq_ok_iff_parse.mp built
  obtain ⟨folds, folded, emits⟩ := Parser.exists_folds_of_parse parsed
  obtain ⟨ending, events, lexes⟩ := grammar.lexing.exists_lexes dropSigil (.ofSource source)
  have outcome : ending.1 = .ok tokens := ((Lexing.emits_tokenize lexes).value_eq log).symm.trans tokenized
  have read := Lexing.emits_tokenize lexes
  rw [outcome, Lexing.events_of_lexes lexes outcome] at read
  refine ⟨tokens, folds, tokenized, (Lexing.inOrder_of_lexes lexes outcome).increasing, folded, ?_⟩
  rw [List.map_append]
  exact emits_build_tree read emits

/-! ### Applications -/

namespace Arithmetic

variable {table? : Option OperatorTable} {resolver? : Option (Resolver Int64)} {e : Expr} {value : Int64}
  {asked later : List String}

/-- An operator with the values of its operands and its own. -/
structure Application where
  left : Int64
  operator : String
  right : Int64
  value : Int64

def Application.line : Application → String
  | ⟨left, operator, right, value⟩ =>
    s!"{toString left.toInt} {operator} {toString right.toInt} = {toString value.toInt}"

/-- From the lookups `asked` to the lookups `later`, a tree comes to a value by some applications. -/
inductive Computes (table? : Option OperatorTable) (resolver? : Option (Resolver Int64)) :
    Expr → List String → Int64 → List String → List Application → Prop where
  | op {table : OperatorTable} {key : String} {left right : Expr} {first second value : Int64}
      {asked between later : List String} {before after : List Application} (present : table? = some table)
      (leftward : Computes table? resolver? left asked first between before)
      (rightward : Computes table? resolver? right between second later after)
      (applied : table key first second = .ok value) :
      Computes table? resolver? (.op key left right) asked value later
        (before ++ (after ++ [⟨first, key, second, value⟩]))
  | var {key : String} {value : Int64} {asked later : List String}
      (answer : consult resolver? key asked = (.ok value, later)) :
      Computes table? resolver? (.var key) asked value later []
  | int {key : String} {value : Int64} {asked : List String} (read : Decimal.read key = .ok value) :
      Computes table? resolver? (.int key) asked value asked []

theorem map_operator_of_computes {applications : List Application}
    (computes : Computes table? resolver? e asked value later applications) :
    applications.map Application.operator = e.postorder := by
  induction computes with
  | op _ _ _ _ ihLeft ihRight => rw [List.map_append, List.map_append, ihLeft, ihRight]; rfl
  | var _ => rfl
  | int _ => rfl

theorem denote_of_computes {applications : List Application}
    (computes : Computes table? resolver? e asked value later applications) :
    denote table? resolver? e asked = (.ok value, later) := by
  induction computes with
  | op present _ _ applied reached reachedToo =>
    subst present
    rw [denote, reached, Ending.andThen, reachedToo, Ending.andThen, applied]
  | var answer => exact answer
  | int read =>
    rw [denote, read]
    rfl

/-- A tree comes to a value by some applications just when it comes to the value. -/
theorem exists_computes_iff : (∃ applications, Computes table? resolver? e asked value later applications) ↔
    denote table? resolver? e asked = (.ok value, later) := by
  constructor
  · rintro ⟨applications, computes⟩
    exact denote_of_computes computes
  intro ends
  induction e generalizing asked value later with
  | op key left right ihLeft ihRight =>
    cases table? with
    | none => cases ends
    | some table =>
      rw [denote] at ends
      obtain ⟨first, between, reached, ends⟩ := Ending.eq_ok_of_andThen ends
      obtain ⟨second, last, reachedToo, ends⟩ := Ending.eq_ok_of_andThen ends
      obtain ⟨applied, rfl⟩ := Prod.mk.inj ends
      obtain ⟨before, leftward⟩ := ihLeft reached
      obtain ⟨after, rightward⟩ := ihRight reachedToo
      exact ⟨_, .op rfl leftward rightward applied⟩
  | var key => exact ⟨[], .var ends⟩
  | int key =>
    rw [denote] at ends
    cases read : Decimal.read key with
    | error cause =>
      rw [read] at ends
      cases ends
    | ok number =>
      rw [read] at ends
      cases ends
      exact ⟨[], .int read⟩

theorem evaluates_lookUp_of_answer {key : String} (answer : consult resolver? key asked = (.ok value, later)) :
    Evaluates (EvalM.lookUp resolver? key) asked (.ok value, later) [] := by
  cases resolver? with
  | none => cases answer
  | some resolver =>
    rw [← answer]
    exact .lookUp resolver key asked

theorem evaluates_literal_of_read {key : String} (read : Decimal.read key = .ok value) :
    Evaluates (literal key) asked (.ok value, asked) [] := by
  rw [literal, read]
  exact .return_ok value asked

theorem evaluates_of_computes {table : OperatorTable} {applications : List Application}
    (computes : Computes (some table) resolver? e asked value later applications) :
    Evaluates (evaluate table resolver? e) asked (.ok value, later)
      ((applications.map Application.line).map Event.step) := by
  induction computes with
  | op present _ _ applied ihLeft ihRight =>
    cases present
    rw [evaluate]
    simp only [List.map_append]
    refine ihLeft.bind_ok (ihRight.bind_ok ?_)
    rw [applyStep, applied]
    exact (Evaluates.logStep _ _).bind_ok (.return_ok _ _)
  | var answer => exact evaluates_lookUp_of_answer answer
  | int read => exact evaluates_literal_of_read read

theorem evaluates_interpret_of_computes {applications : List Application}
    (computes : Computes table? resolver? e asked value later applications) :
    Evaluates (interpret table? resolver? e) asked (.ok value, later)
      ((applications.map Application.line).map Event.step) := by
  cases table? with
  | some table =>
    rw [interpret_eq_evaluate]
    exact evaluates_of_computes computes
  | none =>
    cases computes with
    | op present => cases present
    | var answer => exact evaluates_lookUp_of_answer answer
    | int read => exact evaluates_literal_of_read read

end Arithmetic

/-- A log that keeps steps gets a line for each token and then one for each operator of the tree when a source is
built, and one for each operator of the tree when it is evaluated. Operators come behind their operands. -/
theorem trace_of_success {log : Log} (verbose : 5 ≤ log.verbosity) :
    (∀ (grammar : Grammar) (source : String) (dropSigil : Bool) (tree : Expr),
      ((grammar.build source dropSigil).run log).1 = .ok tree →
        ∃ tokens folds, ((grammar.lexing.tokenize dropSigil source).run log).1 = .ok tokens ∧
          (tokens.Pairwise fun first second => first.offset < second.offset) ∧
          grammar.precedence.Folds tree folds ∧
          ((grammar.build source dropSigil).run log).2 =
            log.append (((tokens.map fun token =>
                s!"Lexed {token.kind.name} token `{token.text}` at {toString token.offset}.") ++
              (folds ++ [s!"Successfully parsed expression: {tree.infixText}"])).map (log.line .debug))) ∧
    ∀ (table? : Option Arithmetic.OperatorTable) (resolver? : Option (Resolver Int64)) (tree : Expr) (value : Int64),
      ((Arithmetic.interpret table? resolver? tree).interpretation.run log).1.outcome = .ok value →
        ∃ later applications, Arithmetic.Computes table? resolver? tree [] value later applications ∧
          applications.map Arithmetic.Application.operator = tree.postorder ∧
          ((Arithmetic.interpret table? resolver? tree).interpretation.run log).2 =
            log.append ((applications.map Arithmetic.Application.line).map (log.line .debug)) := by
  constructor
  · intro grammar source dropSigil tree built
    obtain ⟨tokens, folds, tokenized, increasing, folded, emits⟩ := Grammar.exists_trace_of_build built
    refine ⟨tokens, folds, tokenized, increasing, folded, ?_⟩
    rw [← Log.record_steps verbose]
    exact congrArg Prod.snd (emits log)
  · intro table? resolver? tree value outcome
    obtain ⟨_, evaluates⟩ := Arithmetic.exists_evaluates_interpret table? resolver? tree []
    rw [interpretation_of_evaluates evaluates] at outcome
    obtain ⟨applications, computes⟩ := Arithmetic.exists_computes_iff.mpr (Prod.ext outcome rfl)
    refine ⟨_, applications, computes, Arithmetic.map_operator_of_computes computes, ?_⟩
    rw [← Log.record_steps verbose]
    exact congrArg Prod.snd (emits_interpretation (Arithmetic.evaluates_interpret_of_computes computes) log)

/-- A formula whose operators are folded and applied in the reverse of their order in the source. -/
theorem trace_of_grouped_product :
    5 ≤ ({ verbosity := 5 } : Log).verbosity ∧
    (((Arithmetic.grammar.build "1 + $x * (2 - 3)" false).run { verbosity := 5 }).1 =
        .ok (.op "+" (.int "1") (.op "*" (.var "$x") (.op "-" (.int "2") (.int "3")))) ∧
      ∃ tokens folds,
        ((Arithmetic.grammar.lexing.tokenize false "1 + $x * (2 - 3)").run { verbosity := 5 }).1 = .ok tokens ∧
        (tokens.Pairwise fun first second => first.offset < second.offset) ∧
        PrecedenceTable.arithmetic.Folds
          (.op "+" (.int "1") (.op "*" (.var "$x") (.op "-" (.int "2") (.int "3")))) folds ∧
        ((Arithmetic.grammar.build "1 + $x * (2 - 3)" false).run { verbosity := 5 }).2 =
          Log.append { verbosity := 5 } (((tokens.map fun token =>
              s!"Lexed {token.kind.name} token `{token.text}` at {toString token.offset}.") ++
            (folds ++ ["Successfully parsed expression: (1 + ($x * (2 - 3)))"])).map
              (Log.line { verbosity := 5 } .debug)) ∧
        (tokens.map fun token => s!"Lexed {token.kind.name} token `{token.text}` at {toString token.offset}.") =
          ["Lexed Integer token `1` at 0.", "Lexed Operator token `+` at 2.", "Lexed Variable token `$x` at 4.",
            "Lexed Operator token `*` at 7.", "Lexed Operator token `(` at 9.", "Lexed Integer token `2` at 10.",
            "Lexed Operator token `-` at 12.", "Lexed Integer token `3` at 14.", "Lexed Operator token `)` at 15."]) ∧
    ((Arithmetic.interpret (some Arithmetic.apply) (some fun _ _ => .ok 7)
        (.op "+" (.int "1") (.op "*" (.var "$x") (.op "-" (.int "2") (.int "3"))))).interpretation.run
          { verbosity := 5 }).1.outcome = .ok (-6) ∧
      ∃ later applications,
        Arithmetic.Computes (some Arithmetic.apply) (some fun _ _ => .ok 7)
          (.op "+" (.int "1") (.op "*" (.var "$x") (.op "-" (.int "2") (.int "3")))) [] (-6) later applications ∧
        applications.map Arithmetic.Application.operator = ["-", "*", "+"] ∧
        ((Arithmetic.interpret (some Arithmetic.apply) (some fun _ _ => .ok 7)
          (.op "+" (.int "1") (.op "*" (.var "$x") (.op "-" (.int "2") (.int "3"))))).interpretation.run
            { verbosity := 5 }).2 =
          Log.append { verbosity := 5 } ((applications.map Arithmetic.Application.line).map
            (Log.line { verbosity := 5 } .debug)) := by
  have verbose : 5 ≤ ({ verbosity := 5 } : Log).verbosity := by decide
  have built : ((Arithmetic.grammar.build "1 + $x * (2 - 3)" false).run { verbosity := 5 }).1 =
      .ok (.op "+" (.int "1") (.op "*" (.var "$x") (.op "-" (.int "2") (.int "3")))) := by
    decide +kernel
  have outcome : ((Arithmetic.interpret (some Arithmetic.apply) (some fun _ _ => .ok 7)
      (.op "+" (.int "1") (.op "*" (.var "$x") (.op "-" (.int "2") (.int "3"))))).interpretation.run
        { verbosity := 5 }).1.outcome = .ok (-6) := by
    decide +kernel
  have text : (Expr.op "+" (.int "1") (.op "*" (.var "$x") (.op "-" (.int "2") (.int "3")))).infixText =
      "(1 + ($x * (2 - 3)))" := by
    decide +kernel
  have read : ((Arithmetic.grammar.lexing.tokenize false "1 + $x * (2 - 3)").run { verbosity := 5 }).1 =
      .ok [⟨"1", .int, 0⟩, ⟨"+", .op, 2⟩, ⟨"$x", .var, 4⟩, ⟨"*", .op, 7⟩, ⟨"(", .op, 9⟩, ⟨"2", .int, 10⟩,
        ⟨"-", .op, 12⟩, ⟨"3", .int, 14⟩, ⟨")", .op, 15⟩] := by
    decide +kernel
  obtain ⟨tokens, folds, tokenized, increasing, folded, written⟩ := (trace_of_success verbose).1 _ _ _ _ built
  rw [text] at written
  have same := Except.ok.inj (read.symm.trans tokenized)
  refine ⟨verbose, ⟨built, tokens, folds, tokenized, increasing, folded, written, ?_⟩, outcome,
    (trace_of_success verbose).2 _ _ _ _ outcome⟩
  subst same
  decide +kernel

end Formula
