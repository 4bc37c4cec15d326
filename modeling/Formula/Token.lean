import Formula.Expr.Basic

/-!
# Tokens
-/

namespace Formula

/-- A piece of a source. The offset is that of its first byte, a sigil left out of the text included. -/
structure Token where
  text : String
  kind : Kind
  offset : Nat
  deriving DecidableEq, Repr

/-- The token is the operator written `text`. -/
def Token.isOp (token : Token) (text : String) : Bool :=
  token.kind == .op && token.text == text

theorem Token.isOp_iff {token : Token} {text : String} :
    token.isOp text = true ↔ token.kind = .op ∧ token.text = text := by
  simp [isOp]

end Formula
