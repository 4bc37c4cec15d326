import Formula.Text.Caret

/-!
# Why a source builds no tree

A source fails in one of three ways, each final: a character that no token can start or go on with, a
sequence of tokens that is no expression, or a shape that is refused before any token is read.
-/

namespace Formula

/-- A character that no token can start with, or go on with in a doubled operator. -/
structure LexError where
  character : Char
  offset : Nat
  source : String
  deriving DecidableEq, Repr

def LexError.message (e : LexError) : String :=
  "symbol error: unknown '" ++ e.character.toString ++ "'" ++ placeText e.source e.offset

/-- What is wrong with a token, or with the end of the tokens. -/
inductive SyntaxFault where
  | mismatch (wanted found : String)
  | prematureEnd (after : String)
  | expectedOperand (found : String)
  | trailingToken (found : String)
  deriving DecidableEq, Repr

def SyntaxFault.message : SyntaxFault → String
  | .mismatch wanted found => "want '" ++ wanted ++ "' but get '" ++ found ++ "'"
  | .prematureEnd after => "expression ends after '" ++ after ++ "'"
  | .expectedOperand found => "want an operand but get '" ++ found ++ "'"
  | .trailingToken found => "unexpected trailing '" ++ found ++ "'"

/-- Tokens that are no expression. Only their absence has no place in the source. -/
inductive SyntaxError where
  | emptyTokens
  | placed (fault : SyntaxFault) (offset : Nat) (source : String)
  deriving DecidableEq, Repr

namespace SyntaxError

def message : SyntaxError → String
  | .emptyTokens => "syntax error: empty token stream"
  | .placed fault offset source => "syntax error: " ++ fault.message ++ placeText source offset

/-- The byte that the error points at. -/
def offset? : SyntaxError → Option Nat
  | .emptyTokens => none
  | .placed _ offset _ => some offset

end SyntaxError

/-- Sources that are refused before lexing. -/
inductive StructuralError where
  | empty
  | tooShort (source : String)
  | missingOpen
  | missingClose
  deriving DecidableEq, Repr

def StructuralError.message : StructuralError → String
  | .empty => "invalid expr: empty source"
  | .tooShort source => "invalid expr: `" ++ source ++ "` is too short"
  | .missingOpen => "expr does not start with `(`"
  | .missingClose => "expr does not end with `)`"

inductive BuildError where
  | lexical (e : LexError)
  | grammatical (e : SyntaxError)
  | structural (e : StructuralError)
  deriving DecidableEq, Repr

def BuildError.message : BuildError → String
  | .lexical e => e.message
  | .grammatical e => e.message
  | .structural e => e.message

end Formula
