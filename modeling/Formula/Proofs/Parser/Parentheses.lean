import Mathlib.Combinatorics.Enumerative.DyckWord
import Formula.Grammar
import Formula.Proofs.Parser.Derivation

/-!
# Parentheses of a derivation

Among the tokens of an expression the parentheses are the steps of a Dyck word, an opening one up and a
closing one down (`filterMap_step?_tokens`). The word is nested when the first parenthesis is closed by the
last one and not before, and an expression that starts and ends with parentheses is a group just then
(`exists_group_of_isNested`).
-/

namespace Formula

/-- Up for an opening parenthesis, down for a closing one. -/
def Token.step? (token : Token) : Option DyckStep :=
  if token.isOp "(" then some .U else if token.isOp ")" then some .D else none

theorem Token.step?_of_opens {token : Token} (opens : token.isOp "(" = true) : token.step? = some .U :=
  if_pos opens

theorem Token.step?_of_closes {token : Token} (closes : token.isOp ")" = true) : token.step? = some .D := by
  obtain ⟨-, text⟩ := Token.isOp_iff.mp closes
  have other : token.isOp "(" ≠ true := by simp [Token.isOp, text]
  rw [step?, if_neg other, if_pos closes]

/-- Only operators are parentheses. -/
theorem Token.step?_of_kind {token : Token} (notOp : token.kind ≠ .op) : token.step? = none := by
  simp [step?, Token.isOp, notOp]

/-- The token at another place. -/
def Token.shift (place : Nat → Nat) (token : Token) : Token := { token with offset := place token.offset }

namespace Derivation

variable {parser : Parser}

/-- The parentheses that group. Side by side they make a sum, one inside of another a nest. -/
def word : Derivation parser → DyckWord
  | leaf .. => 0
  | group _ _ _ _ inner => inner.word.nest
  | join _ _ _ _ left right => left.word + right.word

section Unlisted

variable (noOpening : parser.precedence.get? "(" = none) (noClosing : parser.precedence.get? ")" = none)
include noOpening noClosing

theorem step?_of_listed {operator : Token} {precedence : UInt16}
    (listed : parser.precedence.get? operator.text = some precedence) : operator.step? = none := by
  have opens : operator.isOp "(" ≠ true := by
    intro isOp
    rw [(Token.isOp_iff.mp isOp).2, noOpening] at listed
    cases listed
  have closes : operator.isOp ")" ≠ true := by
    intro isOp
    rw [(Token.isOp_iff.mp isOp).2, noClosing] at listed
    cases listed
  rw [Token.step?, if_neg opens, if_neg closes]

theorem filterMap_step?_tokens (d : Derivation parser) : d.tokens.filterMap Token.step? = d.word.toList := by
  induction d with
  | leaf token tree accepted same =>
    have notOp : token.kind ≠ .op := by
      intro op
      rw [op] at same
      cases same
    rw [tokens, List.filterMap_cons_none (Token.step?_of_kind notOp)]
    rfl
  | group opening closing opens closes inner ih =>
    rw [tokens, List.filterMap_cons_some (Token.step?_of_opens opens), List.filterMap_append, ih,
      List.filterMap_cons_some (Token.step?_of_closes closes)]
    rfl
  | join operator precedence kind listed left right ihLeft ihRight =>
    rw [tokens, List.filterMap_append, List.filterMap_cons_none (step?_of_listed noOpening noClosing listed),
      ihLeft, ihRight]
    rfl

theorem word_ne_zero_of_mem {d : Derivation parser} {token : Token} (member : token ∈ d.tokens)
    {step : DyckStep} (steps : token.step? = some step) : d.word ≠ 0 := by
  intro empty
  have found := List.mem_filterMap.mpr ⟨token, member, steps⟩
  rw [filterMap_step?_tokens noOpening noClosing, empty] at found
  cases found

end Unlisted

/-- Between two operands no parenthesis is open. -/
theorem not_isNested_add {first second : DyckWord} (left : first ≠ 0) (right : second ≠ 0) :
    ¬ (first + second).IsNested := by
  rintro ⟨-, nested⟩
  have split : (first + second).toList = first.toList ++ second.toList := rfl
  have leftPos := List.length_pos_iff.mpr (DyckWord.toList_ne_nil.mpr left)
  have rightPos := List.length_pos_iff.mpr (DyckWord.toList_ne_nil.mpr right)
  have between := nested leftPos (by rw [split, List.length_append]; omega)
  rw [split, List.take_left, first.count_U_eq_count_D] at between
  exact Nat.lt_irrefl _ between

/-- An expression between two parentheses that close each other is a group. -/
theorem exists_group_of_isNested (noOpening : parser.precedence.get? "(" = none)
    (noClosing : parser.precedence.get? ")" = none) {d : Derivation parser} (nested : d.word.IsNested)
    {opening closing : Token} {middle : List Token} (opens : opening.isOp "(" = true)
    (closes : closing.isOp ")" = true) (whole : d.tokens = opening :: (middle ++ [closing])) :
    ∃ inner : Derivation parser, inner.tokens = middle ∧ inner.tree = d.tree ∧
      (d.Respects → inner.Respects) := by
  cases d with
  | leaf => exact (nested.1 rfl).elim
  | group _ _ _ _ inner =>
    obtain ⟨-, same⟩ := List.cons.inj whole
    exact ⟨inner, (List.append_inj' same rfl).1, rfl, id⟩
  | join operator precedence kind listed left right =>
    -- The first token is in the left operand and the last one in the right operand.
    have first : opening ∈ left.tokens := by
      obtain ⟨token, rest, same⟩ := List.exists_cons_of_ne_nil left.tokens_ne_nil
      rw [tokens, same, List.cons_append, List.cons.injEq] at whole
      rw [same, whole.1]
      exact List.mem_cons_self
    have last : closing ∈ right.tokens := by
      obtain ⟨front, token, same⟩ := right.tokens.eq_nil_or_concat'.resolve_left right.tokens_ne_nil
      rw [tokens, same, ← List.cons_append, ← List.cons_append, ← List.append_assoc] at whole
      obtain ⟨-, last⟩ := List.append_inj' whole rfl
      rw [same, List.singleton_inj.mp last]
      exact List.mem_append_right _ (List.mem_singleton_self _)
    have leftWord := word_ne_zero_of_mem noOpening noClosing first (Token.step?_of_opens opens)
    have rightWord := word_ne_zero_of_mem noOpening noClosing last (Token.step?_of_closes closes)
    exact (not_isNested_add leftWord rightWord nested).elim

/-! ### The same tokens in another source -/

section Shift

variable {grammar : Grammar} {source other : String} (place : Nat → Nat)

/-- A derivation looks at kinds and texts, so it derives the same tokens wherever they stand. -/
def shift : Derivation (grammar.parser source) → Derivation (grammar.parser other)
  | leaf token tree accepted same => leaf (token.shift place) tree accepted same
  | group opening closing opens closes inner =>
    group (opening.shift place) (closing.shift place) opens closes inner.shift
  | join operator precedence kind listed left right =>
    join (operator.shift place) precedence kind listed left.shift right.shift

variable (d : Derivation (grammar.parser source))

theorem tokens_shift :
    (d.shift place : Derivation (grammar.parser other)).tokens = d.tokens.map (Token.shift place) := by
  induction d with
  | leaf => rfl
  | group _ _ _ _ inner ih => simp [shift, tokens, ih]
  | join _ _ _ _ left right ihLeft ihRight => simp [shift, tokens, ihLeft, ihRight]

theorem tree_shift : (d.shift place : Derivation (grammar.parser other)).tree = d.tree := by
  induction d with
  | leaf => rfl
  | group _ _ _ _ inner ih => exact ih
  | join operator _ _ _ left right ihLeft ihRight => exact congrArg₂ (Expr.op operator.text) ihLeft ihRight

theorem outermost?_shift : (d.shift place : Derivation (grammar.parser other)).outermost? = d.outermost? := by
  cases d <;> rfl

theorem Respects.shift {d : Derivation (grammar.parser source)} (respects : d.Respects) :
    (d.shift place : Derivation (grammar.parser other)).Respects := by
  induction d with
  | leaf => trivial
  | group _ _ _ _ inner ih => exact ih respects
  | join _ _ _ _ left right ihLeft ihRight =>
    obtain ⟨respectsLeft, respectsRight, looser, tighter⟩ := respects
    refine ⟨ihLeft respectsLeft, ihRight respectsRight, ?_, ?_⟩
    · rwa [outermost?_shift]
    · rwa [outermost?_shift]

end Shift

end Derivation

end Formula
