import Formula.Log
import Formula.Token.Lexer

/-!
# Lexing

A lexing chooses what to do at each byte of a source. Two are built in, one for arithmetic and one for
logic, and others are made from rules. Reading all tokens of a source ends at the first failure; every
failure and every token is reported to the log.
-/

namespace Formula

open Ascii

inductive Action where
  | decode (decoder : Decoder)
  | stop
  | fail
  deriving DecidableEq, Repr

/-- Blanks before a token are passed over if `skipsBlanks`; the byte behind them decides. -/
structure Lexing where
  skipsBlanks : Bool
  action : UInt8 → Action

/-- `byte` is one of the bytes that `chars` is made of. -/
def isOneOf (chars : String) (byte : UInt8) : Bool := (Utf8.encode chars).contains byte

namespace Lexing

/-- Operators of one character, integers and variables. -/
def arithmetic : Lexing where
  skipsBlanks := true
  action byte :=
    if isOneOf "()+-*/^%" byte then .decode .op
    else if isDigit byte then .decode .int
    else if byte = sigil then .decode .var
    else .fail

/-- Parentheses, doubled operators and variables. There are no literals. -/
def logical : Lexing where
  skipsBlanks := true
  action byte :=
    if isOneOf "()" byte then .decode .op
    else if isOneOf "&|" byte then .decode .logic
    else if byte = sigil then .decode .var
    else .fail

/-- The first rule that holds the byte gives the action. -/
def ofRules (skipsBlanks : Bool) (rules : List (String × Action)) (otherwise : Action) : Lexing where
  skipsBlanks := skipsBlanks
  action byte := ((rules.find? (fun rule => isOneOf rule.1 byte)).map Prod.snd).getD otherwise

def start (lexing : Lexing) (lexer : Lexer) : Lexer :=
  if lexing.skipsBlanks then lexer.skipBlanks else lexer

/-- The next token, or none at the end of the source or where the lexing stops. -/
def next (lexing : Lexing) (dropSigil : Bool) (lexer : Lexer) : Lexer.Result (Option Token) :=
  match (lexing.start lexer).current? with
  | none => (.ok none, lexing.start lexer)
  | some byte =>
    match lexing.action byte with
    | .decode decoder =>
      match (lexing.start lexer).decode dropSigil decoder with
      | (.ok token, after) => (.ok (some token), after)
      | (.error e, after) => (.error e, after)
    | .stop => (.ok none, lexing.start lexer)
    | .fail => (lexing.start lexer).refuse

theorem length_rest_start_le (lexing : Lexing) (lexer : Lexer) :
    (lexing.start lexer).rest.length ≤ lexer.rest.length := by
  unfold start
  split
  · exact lexer.length_rest_skipBlanks_le
  · exact Nat.le_refl _

theorem rest_lt_of_next {lexing : Lexing} {dropSigil : Bool} {lexer after : Lexer} {token : Token}
    (h : lexing.next dropSigil lexer = (.ok (some token), after)) :
    after.rest.length < lexer.rest.length := by
  unfold next at h
  split at h
  · simp at h
  · split at h
    · split at h
      · rename_i read
        obtain ⟨-, rfl⟩ := Prod.mk.inj h
        exact Nat.lt_of_lt_of_le (Lexer.rest_lt_of_decode read) (lexing.length_rest_start_le lexer)
      · simp at h
    · simp at h
    · simp [Lexer.refuse] at h

end Lexing

/-! ### Reading with a log -/

/-- Passes a result on, with a line for a failure. -/
def Lexer.report {α : Type} (result : Lexer.Result α) : LogM (Lexer.Result α) := do
  if let .error e := result.1 then
    logFailure e.message
  return result

def Token.lexedLine (token : Token) : String :=
  s!"Lexed {token.kind.name} token `{token.text}` at {toString token.offset}."

namespace Lexing

/-- Reads on from `lexer`, with `tokens` already read. -/
def readAll (lexing : Lexing) (dropSigil : Bool) (lexer : Lexer) (tokens : Array Token) :
    LogM (Lexer.Result (List Token)) :=
  match _ : lexing.next dropSigil lexer with
  | (.ok (some token), after) => do
    logStep token.lexedLine
    readAll lexing dropSigil after (tokens.push token)
  | (.ok none, after) => return (.ok tokens.toList, after)
  | (.error e, after) => Lexer.report (.error e, after)
termination_by lexer.rest.length
decreasing_by exact rest_lt_of_next ‹_›

def tokenizeFrom (lexing : Lexing) (dropSigil : Bool) (lexer : Lexer) :
    LogM (Lexer.Result (List Token)) :=
  lexing.readAll dropSigil lexer #[]

/-- Every token of a source, or the first failure. -/
def tokenize (lexing : Lexing) (dropSigil : Bool) (source : String) :
    LogM (Except LexError (List Token)) := do
  let (result, _) ← lexing.tokenizeFrom dropSigil (.ofSource source)
  return result

end Lexing

end Formula
