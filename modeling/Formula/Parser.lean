import Formula.Error.Build
import Formula.Expr.Display
import Formula.Log
import Formula.Precedence

/-!
# Precedence climbing

Tokens are folded into a tree by

```text
expression := operand (operator operand)*
operand    := leaf | "(" expression ")"
```

where `climb` decides which operator takes which operands. It folds operators into the tree on their
left while they bind at least as tightly as it was asked for. When the operator behind a right operand
binds strictly tighter, the right operand is extended first, by a climb that asks for more. Operators of
one precedence thus fold to the left.
-/

namespace Formula

/-- What the parser knows besides the tokens. The source is quoted in errors only. -/
structure Parser where
  precedence : PrecedenceTable
  isLeaf : Kind → Bool
  source : String

/-- A tree read from the front of some tokens, and the tokens behind it. -/
structure Parsed (tokens : List Token) where
  tree : Expr
  rest : List Token
  suffix : rest <:+ tokens

abbrev ParseM := ExceptT SyntaxError LogM

namespace Parser

def refuse {α : Type} (parser : Parser) (fault : SyntaxFault) (offset : Nat) : ParseM α :=
  throw (.placed fault offset parser.source)

/-- Gives up where a parenthesis should close. -/
def refuseClose {α : Type} (parser : Parser) (found : String) (offset : Nat) : ParseM α := do
  logFailure s!"Wanted `)` but found `{found}`."
  parser.refuse (.mismatch ")" found) offset

/-- The tree of a token that is a leaf by itself. -/
def leaf? (parser : Parser) (token : Token) : Option Expr :=
  if parser.isLeaf token.kind then Expr.leaf? token.kind token.text else none

/-- The next token is an operator that binds tighter than `precedence`. -/
def bindsTighter (parser : Parser) (precedence : UInt16) (tokens : List Token) : Bool :=
  match tokens.head?.bind parser.precedence.lookUp with
  | some next => precedence < next
  | none => false

def foldLine (operator : Token) (precedence : UInt16) : String :=
  s!"Folding `{operator.text}` at precedence {toString precedence.toNat}."

mutual

/-- The operand that starts with `token`. Grouping makes no node of its own. -/
def operand (parser : Parser) (token : Token) (rest : List Token) : ParseM (Parsed rest) := do
  if let some leaf := parser.leaf? token then
    return ⟨leaf, rest, List.suffix_refl _⟩
  if token.isOp "(" then
    let first ← parser.operandAfter token rest
    let inner ← parser.climb 0 first.tree first.rest first.suffix
    match same : inner.rest with
    | [] => parser.refuseClose "end of input" parser.source.utf8ByteSize
    | close :: behind =>
      if close.isOp ")" then
        return ⟨inner.tree, behind, (List.suffix_cons close behind).trans (same ▸ inner.suffix)⟩
      else
        parser.refuseClose close.text close.offset
  else
    logFailure s!"Expected an operand but found {token.text} instead."
    parser.refuse (.expectedOperand token.text) token.offset
termination_by 2 * rest.length + 1
decreasing_by
  · omega
  · have := first.suffix.length_le
    omega

/-- The operand that the tokens behind `previous` start with. -/
def operandAfter (parser : Parser) (previous : Token) (tokens : List Token) :
    ParseM (Parsed tokens) :=
  match tokens with
  | [] => do
    logFailure s!"Expression ends after `{previous.text}`."
    parser.refuse (.prematureEnd previous.text) previous.offset
  | token :: rest => do
    let parsed ← parser.operand token rest
    return ⟨parsed.tree, parsed.rest, parsed.suffix.trans (List.suffix_cons token rest)⟩
termination_by 2 * tokens.length
decreasing_by simp; omega

/-- Extends the tree `left` by the operators at the front of `tokens` that bind at `least` or tighter. -/
def climb {whole : List Token} (parser : Parser) (least : Nat) (left : Expr) (tokens : List Token)
    (suffix : tokens <:+ whole) : ParseM (Parsed whole) :=
  match tokens, suffix with
  | [], suffix => return ⟨left, [], suffix⟩
  | operator :: behind, suffix =>
    match parser.precedence.lookUp operator with
    | none => return ⟨left, operator :: behind, suffix⟩
    | some precedence => do
      if precedence.toNat < least then
        return ⟨left, operator :: behind, suffix⟩
      let first ← parser.operandAfter operator behind
      let right ← (if parser.bindsTighter precedence first.rest then
        parser.climb (precedence.toNat + 1) first.tree first.rest first.suffix else pure first)
      logStep (foldLine operator precedence)
      parser.climb least (.op operator.text left right.tree) right.rest
        (right.suffix.trans ((List.suffix_cons operator behind).trans suffix))
termination_by 2 * tokens.length
decreasing_by
  · simp
  · have := first.suffix.length_le
    simp only [List.length_cons]
    omega
  · have := right.suffix.length_le
    simp only [List.length_cons]
    omega

end

/-- The tree of all the tokens. -/
def parse (parser : Parser) (tokens : List Token) : ParseM Expr := do
  match tokens with
  | [] => throw .emptyTokens
  | token :: rest =>
    let first ← parser.operand token rest
    let whole ← parser.climb 0 first.tree first.rest first.suffix
    match whole.rest with
    | [] =>
      logStep s!"Successfully parsed expression: {whole.tree.infixText}"
      return whole.tree
    | token :: _ => parser.refuse (.trailingToken token.text) token.offset

end Parser

end Formula
