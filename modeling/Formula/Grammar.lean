import Formula.Parser
import Formula.Token.Lexing

/-!
# Grammars

A grammar is what tells one language of formulas from another for the reader: how its operators bind,
which tokens are leaves, and which bytes start which tokens.
-/

namespace Formula

structure Grammar where
  precedence : PrecedenceTable
  isLeaf : Kind → Bool
  lexing : Lexing

/-- Work that may end without a tree. -/
abbrev BuildM := ExceptT BuildError LogM

namespace Grammar

def parser (grammar : Grammar) (source : String) : Parser where
  precedence := grammar.precedence
  isLeaf := grammar.isLeaf
  source := source

def build (grammar : Grammar) (source : String) (dropSigil : Bool) : BuildM Expr := do
  match ← grammar.lexing.tokenize dropSigil source with
  | .error e => throw (.lexical e)
  | .ok tokens =>
    match ← ((grammar.parser source).parse tokens).run with
    | .error e =>
      logFailure "Parse failed."
      throw (.grammatical e)
    | .ok tree => return tree

end Grammar

end Formula
