import Formula.Language
import Formula.Proofs.Build
import Formula.Proofs.Evaluation.Arithmetic
import Formula.Proofs.Evaluation.Boolean

/-!
# What the log keeps

What an operation does to a log is one list of events, which the settings of the log have no part in
(`Operation.exists_emits`). The log keeps the events that its verbosity admits and writes them in its
colours, so the result is the same on every log, and a quieter log has some of the lines of a louder one
(`Operation.exists_filtered`).
-/

namespace Formula

/-- An event on a line, as a log writes it. -/
def Event.line (colored : Bool) (event : Event) : String :=
  event.channel.label colored ++ " " ++ event.message

/-- The events that are loud enough for a verbosity. -/
def Event.kept (verbosity : Int) (events : List Event) : List Event :=
  events.filter fun event => event.level ≤ verbosity

theorem Event.kept_kept {low high : Int} (le : low ≤ high) (events : List Event) :
    kept low (kept high events) = kept low events := by
  rw [kept, kept, List.filter_filter]
  congr 1
  funext event
  have : event.level ≤ low → event.level ≤ high := fun quiet => Int.le_trans quiet le
  simpa using this

namespace Log

/-- The log with more lines behind those it has. -/
def append (log : Log) (lines : List String) : Log := { log with lines := log.lines ++ lines.toArray }

theorem append_nil (log : Log) : log.append [] = log := by
  simp [append]

theorem append_append (log : Log) (first second : List String) :
    (log.append first).append second = log.append (first ++ second) := by
  simp [append]

theorem write_of_le {log : Log} {event : Event} (loud : event.level ≤ log.verbosity) :
    log.write event.channel event.level event.message = log.append [event.line log.colored] := by
  rw [write, if_pos loud, append, Array.push_eq_append]
  rfl

theorem write_of_lt {log : Log} {event : Event} (quiet : log.verbosity < event.level) :
    log.write event.channel event.level event.message = log := by
  rw [write, if_neg (Int.not_le.mpr quiet)]

theorem record_eq_append (log : Log) (events : List Event) :
    log.record events = log.append ((Event.kept log.verbosity events).map (Event.line log.colored)) := by
  induction events generalizing log with
  | nil => exact log.append_nil.symm
  | cons event rest ih =>
    have split : log.record (event :: rest) =
        (log.write event.channel event.level event.message).record rest := rfl
    rw [split, Event.kept]
    by_cases loud : event.level ≤ log.verbosity
    · rw [write_of_le loud, ih, append_append, List.filter_cons_of_pos (by simpa using loud)]
      rfl
    · rw [write_of_lt (Int.not_le.mp loud), ih, List.filter_cons_of_neg (by simpa using loud)]
      rfl

end Log

/-- What can be asked for with a log at hand. The type is that of the result: what is left of a lexer goes with
the tokens read from it, and the keys that were looked up go with the value of a tree. -/
inductive Operation : Type → Type 1 where
  | tokenize (lexing : Lexing) (dropSigil : Bool) (source : String) : Operation (Except LexError (List Token))
  | tokenizeFrom (lexing : Lexing) (dropSigil : Bool) (lexer : Lexer) : Operation (Lexer.Result (List Token))
  | parse (parser : Parser) (tokens : List Token) : Operation (Except SyntaxError Expr)
  | build (language : Language) (source : String) (dropSigil : Bool) : Operation (Except BuildError Expr)
  | arithmetic (table? : Option Arithmetic.OperatorTable) (resolver? : Option (Resolver Int64)) (e : Expr) :
      Operation (Interpretation Int64)
  | boolean {ρ : Type} (resolver? : Option (Resolver (Truth ρ))) (e : Expr) :
      Operation (Interpretation (Truth ρ))

namespace Operation

variable {α : Type}

def run : Operation α → LogM α
  | .tokenize lexing dropSigil source => lexing.tokenize dropSigil source
  | .tokenizeFrom lexing dropSigil lexer => lexing.tokenizeFrom dropSigil lexer
  | .parse parser tokens => (parser.parse tokens).run
  | .build language source dropSigil => (language.build source dropSigil).run
  | .arithmetic table? resolver? e => (Arithmetic.interpret table? resolver? e).interpretation
  | .boolean resolver? e => (Boolean.interpret resolver? e).interpretation

theorem exists_emits (operation : Operation α) : ∃ value events, Emits operation.run value events := by
  cases operation with
  | tokenize lexing dropSigil source => exact lexing.exists_emits_tokenize dropSigil source
  | tokenizeFrom lexing dropSigil lexer =>
    obtain ⟨ending, events, lexes⟩ := lexing.exists_lexes dropSigil lexer
    exact ⟨ending, events, Lexing.emits_tokenizeFrom lexes⟩
  | parse parser tokens => exact parser.exists_emits_parse tokens
  | build language source dropSigil => exact language.exists_emits_build source dropSigil
  | arithmetic table? resolver? e =>
    obtain ⟨events, evaluates⟩ := Arithmetic.exists_evaluates_interpret table? resolver? e []
    exact ⟨_, events, emits_interpretation evaluates⟩
  | boolean resolver? e =>
    obtain ⟨events, evaluates⟩ := Boolean.exists_evaluates_interpret resolver? e []
    exact ⟨_, events, emits_interpretation evaluates⟩

/-- The settings of a log only choose which events it keeps and how it writes them. -/
theorem exists_filtered (operation : Operation α) :
    ∃ value events,
      (∀ log, operation.run log =
        (value, log.append ((Event.kept log.verbosity events).map (Event.line log.colored)))) ∧
      ∀ quiet loud : Log, quiet.verbosity ≤ loud.verbosity →
        operation.run quiet = (value, quiet.append
          ((Event.kept quiet.verbosity (Event.kept loud.verbosity events)).map
            (Event.line quiet.colored))) := by
  obtain ⟨value, events, emits⟩ := operation.exists_emits
  have filtered : ∀ log, operation.run log =
      (value, log.append ((Event.kept log.verbosity events).map (Event.line log.colored))) := by
    intro log
    rw [emits log, Log.record_eq_append]
  refine ⟨value, events, filtered, fun quiet loud le => ?_⟩
  rw [Event.kept_kept le]
  exact filtered quiet

end Operation

end Formula
