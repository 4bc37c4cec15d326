import Mathlib.Control.Monad.Basic
import Formula.Proofs.Verbosity

/-!
# Failures on the log

What an operation sends are steps and, behind them, the failures that it reports. A build reports whatever is
wrong with the bytes or the tokens of a source, but refuses a shape without a word. An evaluation reports that a
variable has no resolver, and a boolean one that an operator is unknown. All that can go wrong besides ends it
without a word (`reportsFailure_iff`).
-/

namespace Formula

/-- Steps, and behind them failures if `failed`. -/
def Reports (failed : Bool) (events : List Event) : Prop :=
  ∃ steps failures : List String, events = steps.map Event.step ++ failures.map Event.failure ∧
    (failures ≠ [] ↔ failed = true)

namespace Reports

variable {failed : Bool} {first second : List Event}

theorem nil : Reports false [] := ⟨[], [], rfl, by simp⟩

theorem step (message : String) : Reports false [.step message] := ⟨[message], [], rfl, by simp⟩

theorem failure (message : String) : Reports true [.failure message] := ⟨[], [message], rfl, by simp⟩

theorem append (before : Reports false first) (after : Reports failed second) :
    Reports failed (first ++ second) := by
  obtain ⟨steps, failures, rfl, silent⟩ := before
  obtain ⟨more, last, rfl, tells⟩ := after
  obtain rfl : failures = [] := by simpa using silent
  exact ⟨steps ++ more, last, by simp, tells⟩

theorem append_failure (before : Reports failed first) (message : String) :
    Reports true (first ++ [.failure message]) := by
  obtain ⟨steps, failures, rfl, -⟩ := before
  exact ⟨steps, failures ++ [message], by simp, by simp⟩

end Reports

/-- The outcome is an error of those that are `told`. -/
def isTold {ε α : Type} (told : ε → Bool) : Except ε α → Bool
  | .ok _ => false
  | .error e => told e

theorem isTold_iff {ε α : Type} {told : ε → Bool} {outcome : Except ε α} :
    isTold told outcome = true ↔ ∃ e, outcome = .error e ∧ told e = true := by
  cases outcome <;> simp [isTold]

/-! ### Reading -/

theorem Lexing.reports_of_lexes {lexing : Lexing} {dropSigil : Bool} {lexer : Lexer}
    {ending : Lexer.Result (List Token)} {events : List Event}
    (lexes : Lexes lexing dropSigil lexer ending events) : Reports (isTold (fun _ => true) ending.1) events := by
  induction lexes with
  | ends => exact .nil
  | fails => exact .failure _
  | @token _ _ _ token result _ _ _ later =>
    have same : isTold (fun _ => true) (result.map (token :: ·)) = isTold (fun _ => true) result := by
      cases result <;> rfl
    show Reports (isTold _ (result.map (token :: ·))) _
    rw [same]
    exact (Reports.step _).append later

/-- The errors of the parser that it reports. -/
def SyntaxError.reported : SyntaxError → Bool
  | .emptyTokens => false
  | .placed (.trailingToken _) _ _ => false
  | .placed _ _ _ => true

namespace Parser

theorem reports_of_reads {parser : Parser} {call : Call} {outcome : Outcome} {events : List Event}
    (reads : Reads parser call outcome events) : Reports (isTold SyntaxError.reported outcome) events := by
  induction reads with
  | leaf | stop => exact .nil
  | misplaced | ends => exact .failure _
  | group _ _ _ inner => exact inner
  | groupMismatch _ _ _ inner | groupEnd _ _ inner => exact inner.append_failure _
  | groupError _ _ inner => exact inner
  | fold _ _ _ _ operand onward => exact operand.append ((Reports.step _).append onward)
  | foldError _ _ _ operand => exact operand
  | expression _ _ operand onward => exact operand.append onward
  | expressionError _ operand => exact operand

theorem exists_reports_parse (parser : Parser) (tokens : List Token) :
    ∃ outcome events, Emits (parser.parse tokens).run outcome events ∧
      Reports (isTold SyntaxError.reported outcome) events := by
  cases tokens with
  | nil => exact ⟨_, _, .throw SyntaxError.emptyTokens, .nil⟩
  | cons token rest =>
    obtain ⟨outcome, events, reads⟩ := exists_reads parser (.expression 0 token (token :: rest))
    have reports := reports_of_reads reads
    refine ⟨_, _, emits_parse reads, ?_⟩
    rcases outcome with e | ⟨tree, _ | ⟨trailing, behind⟩⟩
    · rw [completeEvents, List.append_nil]
      exact reports
    · exact reports.append (.step _)
    · -- What is left over is no fault to the calls, and nothing is sent for it.
      rw [completeEvents, List.append_nil]
      exact reports

end Parser

/-- The errors of a build that it reports. -/
def BuildError.reported : BuildError → Bool
  | .lexical _ => true
  | .grammatical _ => true
  | .structural _ => false

theorem Grammar.exists_reports_build (grammar : Grammar) (source : String) (dropSigil : Bool) :
    ∃ outcome events, Emits (grammar.build source dropSigil).run outcome events ∧
      Reports (isTold BuildError.reported outcome) events := by
  obtain ⟨⟨read, after⟩, first, lexes⟩ := grammar.lexing.exists_lexes dropSigil (.ofSource source)
  have tokenized := Lexing.emits_tokenize lexes
  have lexed := Lexing.reports_of_lexes lexes
  cases read with
  | error e => exact ⟨_, _, emits_build_lexical tokenized, lexed⟩
  | ok tokens =>
    obtain ⟨outcome, second, parsed, reports⟩ := (grammar.parser source).exists_reports_parse tokens
    cases outcome with
    | error e =>
      -- Not every fault of the tokens is reported by the parser, but the build says that there is one.
      exact ⟨_, _, emits_build_grammatical tokenized parsed, lexed.append (reports.append_failure _)⟩
    | ok tree => exact ⟨_, _, emits_build_tree tokenized parsed, lexed.append reports⟩

theorem Language.exists_reports_build (language : Language) (source : String) (dropSigil : Bool) :
    ∃ outcome events, Emits (language.build source dropSigil).run outcome events ∧
      Reports (isTold BuildError.reported outcome) events := by
  rcases language.build_cases source dropSigil with ⟨e, refused⟩ | same
  · rw [refused]
    exact ⟨_, _, .throw (BuildError.structural e), .nil⟩
  · rw [same]
    exact language.grammar.exists_reports_build source dropSigil

/-! ### Evaluating -/

/-- Behind any lookups, what `work` reports is an error that is `told`, and it is `sure` to report those. -/
def Tells {α : Type} (sure : Prop) (told : EvaluationError → Bool) (work : EvalM α) : Prop :=
  ∀ asked, ∃ ending events failed, Evaluates work asked ending events ∧ Reports failed events ∧
    (failed = true → isTold told ending.1 = true) ∧ (sure → isTold told ending.1 = true → failed = true)

namespace Tells

variable {α β : Type} {sure : Prop} {told : EvaluationError → Bool}

theorem of_reports {work : EvalM α} (exactly : ∀ asked, ∃ ending events,
    Evaluates work asked ending events ∧ Reports (isTold told ending.1) events) : Tells sure told work := by
  intro asked
  obtain ⟨ending, events, evaluates, reports⟩ := exactly asked
  exact ⟨ending, events, _, evaluates, reports, id, fun _ => id⟩

theorem return_ok (value : α) : Tells sure told (pure value : EvalM α) :=
  of_reports fun asked => ⟨_, _, .return_ok value asked, .nil⟩

theorem logStep (message : String) : Tells sure told (liftM (Formula.logStep message)) :=
  of_reports fun asked => ⟨_, _, .logStep message asked, .step message⟩

theorem throw {e : EvaluationError} (silent : sure → told e = false) :
    Tells sure told (throw e : EvalM α) := by
  intro asked
  refine ⟨_, _, false, .throw e asked, .nil, nofun, ?_⟩
  intro holds loud
  exact (silent holds).symm.trans loud

theorem logFailure_throw {e : EvaluationError} (loud : told e = true) (message : String) :
    Tells sure told (do
      liftM (Formula.logFailure message)
      MonadExcept.throw e : EvalM α) := by
  apply of_reports
  intro asked
  refine ⟨_, _, (Evaluates.logFailure message asked).bind_ok (.throw e asked), ?_⟩
  rw [isTold, loud]
  exact .failure message

theorem bind {work : EvalM α} {next : α → EvalM β} (before : Tells sure told work)
    (after : ∀ value, Tells sure told (next value)) : Tells sure told (work >>= next) := by
  intro asked
  obtain ⟨⟨outcome, later⟩, first, failed, evaluates, reports, only, all⟩ := before asked
  cases outcome with
  | error e => exact ⟨_, _, failed, evaluates.bind_error, reports, only, all⟩
  | ok value =>
    obtain rfl : failed = false := Bool.eq_false_iff.mpr fun fails => Bool.noConfusion (only fails)
    obtain ⟨ending, second, failed, goesOn, reportsToo, onlyToo, allToo⟩ := after value later
    exact ⟨_, _, failed, evaluates.bind_ok goesOn, reports.append reportsToo, onlyToo, allToo⟩

theorem lookUp {resolver? : Option (Resolver α)} {key : String} (loud : told (.missingResolver key) = true)
    (silent : ∀ text, told (.resolver text) = false) : Tells sure told (EvalM.lookUp resolver? key) := by
  cases resolver? with
  | none => exact logFailure_throw loud _
  | some resolver =>
    apply of_reports
    intro asked
    refine ⟨_, _, .lookUp resolver key asked, ?_⟩
    rw [consult]
    cases resolver asked key with
    | ok value => exact .nil
    | error text =>
      rw [Except.mapError, isTold, silent]
      exact .nil

end Tells

/-- The errors of an arithmetic evaluation that it reports. -/
def Arithmetic.reported : EvaluationError → Bool
  | .missingResolver _ => true
  | _ => false

/-- The errors of a boolean evaluation that it reports. -/
def Boolean.reported : EvaluationError → Bool
  | .missingResolver _ => true
  | .unknownOperator _ => true
  | _ => false

/-- No operator of the table fails with an error that evaluations report. -/
def Arithmetic.OperatorTable.IsSilent (table : OperatorTable) : Prop :=
  ∀ key left right e, table key left right = .error e → reported e = false

theorem Arithmetic.tells_literal {sure : Prop} (key : String) : Tells sure reported (literal key) := by
  unfold literal
  split
  · exact .return_ok _
  · exact .throw fun _ => rfl

theorem Arithmetic.tells_evaluate (table : OperatorTable) (resolver? : Option (Resolver Int64)) (e : Expr) :
    Tells table.IsSilent reported (evaluate table resolver? e) := by
  induction e with
  | op key left right ihLeft ihRight =>
    apply ihLeft.bind
    intro first
    apply ihRight.bind
    intro second
    unfold applyStep
    split
    · rename_i e fails
      exact .throw fun silent => silent key first second e fails
    · exact (Tells.logStep _).bind fun _ => .return_ok _
  | var key => exact .lookUp rfl fun _ => rfl
  | int key => exact tells_literal key

theorem Arithmetic.isSilent_apply : OperatorTable.IsSilent apply := by
  intro key left right e fails
  unfold apply at fails
  split at fails
  · cases fails
  · cases fails
  · cases fails
  · split at fails
    · cases fails
      rfl
    · cases fails
  · split at fails
    · cases fails
      rfl
    · cases fails
  · cases fails
    rfl

theorem Arithmetic.tells_interpret (table? : Option OperatorTable) (resolver? : Option (Resolver Int64))
    (e : Expr) : Tells (∀ table ∈ table?, table.IsSilent) reported (interpret table? resolver? e) := by
  cases table? with
  | some table =>
    rw [interpret_eq_evaluate]
    simpa using tells_evaluate table resolver? e
  | none =>
    cases e with
    | op key left right => exact .throw fun _ => rfl
    | var key => exact .lookUp rfl fun _ => rfl
    | int key => exact tells_literal key

theorem Boolean.tells_interpret {ρ : Type} (resolver? : Option (Resolver (Truth ρ))) (e : Expr) :
    Tells True reported (interpret resolver? e) := by
  rw [interpret_eq_evaluate]
  induction e with
  | op key left right ihLeft ihRight =>
    unfold evaluate
    split
    · exact .logFailure_throw rfl _
    · apply ihLeft.bind
      intro truth
      split
      · exact (Tells.logStep _).bind fun _ => .return_ok _
      · exact ihRight
  | var key => exact .lookUp rfl fun _ => rfl
  | int key => exact .throw fun _ => rfl

/-! ### Lines -/

theorem Log.append_inj {log : Log} {first second : List String} (same : log.append first = log.append second) :
    first = second := by
  simpa [append] using congrArg (fun log => log.lines.toList) same

/-- Lines of the two channels are told apart by their labels, which are of one length. -/
theorem Event.line_failure_ne_step (colored : Bool) (message other : String) :
    (failure message).line colored ≠ (step other).line colored := by
  intro same
  have chars := congrArg String.toList same
  simp only [line, failure, step, String.append_assoc, String.toList_append] at chars
  have labels := (List.append_inj chars (by cases colored <;> decide)).1
  revert labels
  cases colored <;> decide

/-- The work adds lines to the log, and one of them is on the error channel. -/
def ReportsFailure {α : Type} (work : LogM α) (log : Log) : Prop :=
  ∃ lines message, (work.run log).2 = log.append lines ∧ log.line .error message ∈ lines

section Lines

variable {α : Type} {work : LogM α} {log : Log}

theorem not_reportsFailure_of_lines_eq (same : (work.run log).2.lines = log.lines) :
    ¬ ReportsFailure work log := by
  rintro ⟨lines, message, added, member⟩
  rw [added] at same
  have empty : lines = [] := by simpa [Log.append] using same
  rw [empty] at member
  cases member

theorem reportsFailure_iff_of_reports {value : α} {events : List Event} {failed : Bool}
    (emits : Emits work value events) (reports : Reports failed events) (loud : 1 ≤ log.verbosity) :
    ReportsFailure work log ↔ failed = true := by
  have added : (work.run log).2 =
      log.append ((Event.kept log.verbosity events).map (Event.line log.colored)) := by
    show (work log).2 = _
    rw [emits log, Log.record_eq_append]
  obtain ⟨steps, failures, rfl, tells⟩ := reports
  rw [← tells]
  constructor
  · rintro ⟨lines, message, same, member⟩
    obtain rfl := Log.append_inj (same.symm.trans added)
    obtain ⟨event, kept, written⟩ := List.mem_map.mp member
    rcases List.mem_append.mp (List.mem_filter.mp kept).1 with inside | inside
    · obtain ⟨other, -, rfl⟩ := List.mem_map.mp inside
      exact absurd written.symm (Event.line_failure_ne_step log.colored message other)
    · obtain ⟨other, present, -⟩ := List.mem_map.mp inside
      exact List.ne_nil_of_mem present
  · intro some
    obtain ⟨message, present⟩ := List.exists_mem_of_ne_nil failures some
    have sent : Event.failure message ∈ steps.map Event.step ++ failures.map Event.failure :=
      List.mem_append_right _ (List.mem_map.mpr ⟨message, present, rfl⟩)
    refine ⟨_, message, added, List.mem_map.mpr ⟨.failure message, List.mem_filter.mpr ⟨sent, ?_⟩, rfl⟩⟩
    exact decide_eq_true loud

theorem reportsFailure_of_tells {sure : Prop} {told : EvaluationError → Bool} {work : EvalM α}
    (tells : Tells sure told work) (loud : 1 ≤ log.verbosity) {run : Interpretation α}
    (ran : (work.interpretation.run log).1 = run) :
    (ReportsFailure work.interpretation log → ∃ e, run.outcome = .error e ∧ told e = true) ∧
      (sure → ∀ e, run.outcome = .error e → told e = true → ReportsFailure work.interpretation log) := by
  obtain ⟨ending, events, failed, evaluates, reports, only, all⟩ := tells []
  rw [interpretation_of_evaluates evaluates] at ran
  subst ran
  rw [reportsFailure_iff_of_reports (emits_interpretation evaluates) reports loud, ← isTold_iff]
  refine ⟨only, ?_⟩
  intro holds e outcome toldOf
  exact all holds (isTold_iff.mpr ⟨e, outcome, toldOf⟩)

end Lines

/-- Which failures a verbose log gets to know of: those of reading, a variable without a resolver and, from a
boolean evaluation, an unknown operator. So nothing that succeeds is reported as a failure. -/
theorem reportsFailure_iff {ρ : Type} {log : Log} (loud : 1 ≤ log.verbosity) :
    (∀ (language : Language) (source : String) (dropSigil : Bool),
      ReportsFailure (language.build source dropSigil).run log ↔
        ∃ e, ((language.build source dropSigil).run log).1 = .error e ∧ e.reported = true) ∧
    (∀ (table? : Option Arithmetic.OperatorTable) (resolver? : Option (Resolver Int64)) (tree : Expr) run,
      ((Arithmetic.interpret table? resolver? tree).interpretation.run log).1 = run →
        (ReportsFailure (Arithmetic.interpret table? resolver? tree).interpretation log →
          ∃ e, run.outcome = .error e ∧ Arithmetic.reported e = true) ∧
        ((∀ table ∈ table?, table.IsSilent) → ∀ e, run.outcome = .error e → Arithmetic.reported e = true →
          ReportsFailure (Arithmetic.interpret table? resolver? tree).interpretation log)) ∧
    ∀ (resolver? : Option (Resolver (Truth ρ))) (tree : Expr) run,
      ((Boolean.interpret resolver? tree).interpretation.run log).1 = run →
        (ReportsFailure (Boolean.interpret resolver? tree).interpretation log ↔
          ∃ e, run.outcome = .error e ∧ Boolean.reported e = true) := by
  refine ⟨?_, ?_, ?_⟩
  · intro language source dropSigil
    obtain ⟨outcome, events, emits, reports⟩ := language.exists_reports_build source dropSigil
    have same : ((language.build source dropSigil).run log).1 = outcome := emits.value_eq log
    rw [reportsFailure_iff_of_reports emits reports loud, same, isTold_iff]
  · intro table? resolver? tree run ran
    exact reportsFailure_of_tells (Arithmetic.tells_interpret table? resolver? tree) loud ran
  · intro resolver? tree run ran
    obtain ⟨only, all⟩ := reportsFailure_of_tells (Boolean.tells_interpret resolver? tree) loud ran
    constructor
    · exact only
    · rintro ⟨e, outcome, toldOf⟩
      exact all trivial e outcome toldOf

/-- A parenthesis that is not closed, a variable that nobody resolves and an operator that is not boolean. -/
theorem reportsFailure_of_unclosed :
    ReportsFailure (Language.usualArithmetic.build "(1" false).run { verbosity := 1 } ∧
      ReportsFailure (Arithmetic.interpret (some Arithmetic.apply) none (.var "$x")).interpretation
        { verbosity := 1 } ∧
      ReportsFailure (Boolean.interpret none (.op "+" (.var "$p") (.var "$q")) : EvalM (Truth Unit)).interpretation
        { verbosity := 5, colored := true } := by
  have quiet := @reportsFailure_iff Unit { verbosity := 1 } (by decide)
  have chatty := @reportsFailure_iff Unit { verbosity := 5, colored := true } (by decide)
  have silent : ∀ table ∈ some Arithmetic.apply, Arithmetic.OperatorTable.IsSilent table := by
    rintro _ ⟨⟩
    exact Arithmetic.isSilent_apply
  have unresolved : ((Arithmetic.interpret (some Arithmetic.apply) none (.var "$x")).interpretation.run
      { verbosity := 1 }).1.outcome = .error (.missingResolver "$x") := by
    decide +kernel
  have unknown : ((Boolean.interpret none (.op "+" (.var "$p") (.var "$q")) :
      EvalM (Truth Unit)).interpretation.run { verbosity := 5, colored := true }).1.outcome =
        .error (.unknownOperator "+") := by
    decide +kernel
  refine ⟨(quiet.1 _ _ _).mpr ⟨.grammatical (.placed (.mismatch ")" "end of input") 2 "(1"), ?_, rfl⟩,
    (quiet.2.1 _ _ _ _ rfl).2 silent _ unresolved rfl, (chatty.2.2 _ _ _ rfl).mpr ⟨_, unknown, rfl⟩⟩
  decide +kernel

/-- A zero divisor and an empty source, without a word on a log that keeps failures. -/
theorem zero_divisor_without_report :
    ((Arithmetic.interpret (some Arithmetic.apply) none (.op "/" (.int "1") (.int "0"))).interpretation.run
        { verbosity := 1 }).1.outcome = .error (.divisionByZero "/" 1 0) ∧
      ¬ ReportsFailure (Arithmetic.interpret (some Arithmetic.apply) none
        (.op "/" (.int "1") (.int "0"))).interpretation { verbosity := 1 } ∧
      ((Language.usualArithmetic.build "" false).run { verbosity := 1 }).1 = .error (.structural .empty) ∧
      ¬ ReportsFailure (Language.usualArithmetic.build "" false).run { verbosity := 1 } := by
  have silent : ((Arithmetic.interpret (some Arithmetic.apply) none
      (.op "/" (.int "1") (.int "0"))).interpretation.run { verbosity := 1 }).2.lines = #[] := by
    decide +kernel
  refine ⟨by decide +kernel, not_reportsFailure_of_lines_eq silent, by decide +kernel, ?_⟩
  exact not_reportsFailure_of_lines_eq (by decide +kernel)

end Formula
