import Formula.Arithmetic
import Formula.Proofs.Parser.Reading

/-!
# Derivations

A derivation says how tokens make up an expression: which of them are leaves, which parentheses group, and
which operators join which operands. `Respects` picks the derivations that precedences and association to
the left allow. The parser builds the trees of just these (`parse_ok_iff_exists_derivation`): what it has read
has such a derivation (`derives_of_reads`), and such a derivation is read in front of any tokens that do not
continue its last operand (`exists_reads_of_respects`).
-/

namespace Formula

/-- A way to make an expression of tokens, with the leaves and the operators of a parser. -/
inductive Derivation (parser : Parser) where
  | leaf (token : Token) (tree : Expr) (accepted : parser.isLeaf token.kind = true)
    (same : Expr.leaf? token.kind token.text = some tree)
  | group (opening closing : Token) (opens : opening.isOp "(" = true) (closes : closing.isOp ")" = true)
    (inner : Derivation parser)
  | join (operator : Token) (precedence : UInt16) (kind : operator.kind = .op)
    (listed : parser.precedence.get? operator.text = some precedence) (left right : Derivation parser)

namespace Derivation

variable {parser : Parser}

/-- The tokens from left to right. -/
def tokens : Derivation parser → List Token
  | leaf token .. => [token]
  | group opening closing _ _ inner => opening :: (inner.tokens ++ [closing])
  | join operator _ _ _ left right => left.tokens ++ operator :: right.tokens

/-- The tree, in which groups leave no trace. -/
def tree : Derivation parser → Expr
  | leaf _ tree .. => tree
  | group _ _ _ _ inner => inner.tree
  | join operator _ _ _ left right => .op operator.text left.tree right.tree

/-- How tightly the outermost operator binds. Inside of a group none is outermost. -/
def outermost? : Derivation parser → Option UInt16
  | join _ precedence .. => some precedence
  | _ => none

/-- No operator has a looser one as its left operand, or one that is not tighter as its right operand. -/
def Respects : Derivation parser → Prop
  | leaf .. => True
  | group _ _ _ _ inner => inner.Respects
  | join _ precedence _ _ left right =>
    left.Respects ∧ right.Respects ∧
      (∀ inner ∈ left.outermost?, precedence ≤ inner) ∧ ∀ inner ∈ right.outermost?, precedence < inner

theorem tokens_ne_nil (d : Derivation parser) : d.tokens ≠ [] := by
  cases d <;> simp [tokens]

/-- An operator in front of `rest` that is no looser than `least` joins `d` as a whole. -/
def Fits (d : Derivation parser) (least : Nat) (rest : List Token) : Prop :=
  ∀ precedence ∈ d.outermost?, least ≤ precedence.toNat ∧ parser.Stops (precedence.toNat + 1) rest

/-- `d` is a derivation of `tree` from the tokens before `rest`, with operators no looser than `least`. -/
structure Covers (d : Derivation parser) (least : Nat) (tokens : List Token) (tree : Expr)
    (rest : List Token) : Prop where
  respects : d.Respects
  tokens_eq : d.tokens ++ rest = tokens
  tree_eq : d.tree = tree
  binds : ∀ precedence ∈ d.outermost?, least ≤ precedence.toNat

end Derivation

namespace Parser

variable {parser : Parser}

/-- There is a derivation of what a call has read. That of a climb goes on from a derivation of the tree on
its left. -/
def Derives (parser : Parser) (tree : Expr) (rest : List Token) : Call → Prop
  | .operand token tokens =>
    ∃ d : Derivation parser, d.Covers 0 (token :: tokens) tree rest ∧ d.outermost? = none
  | .climb least left tokens =>
    ∀ d : Derivation parser, d.Respects → d.tree = left → d.Fits least tokens →
      ∃ whole : Derivation parser, whole.Covers least (d.tokens ++ tokens) tree rest
  | .expression least _ tokens => ∃ d : Derivation parser, d.Covers least tokens tree rest

theorem derives_of_reads {call : Call} {outcome : Outcome} {events : List Event}
    (reads : Reads parser call outcome events) :
    ∀ tree rest, outcome = .ok (tree, rest) → Derives parser tree rest call := by
  induction reads with
  | @leaf token behind leaf found =>
    rintro tree rest ⟨⟩
    obtain ⟨accepted, same⟩ := leaf?_eq_some_iff.mp found
    exact ⟨.leaf token leaf accepted same, ⟨trivial, rfl, rfl, nofun⟩, rfl⟩
  | @group opening closing _ _ _ _ opens _ closes inner =>
    rintro tree rest ⟨⟩
    obtain ⟨d, respects, rfl, tree_eq, -⟩ := inner _ _ rfl
    exact ⟨.group opening closing opens closes d,
      ⟨respects, by simp [Derivation.tokens], tree_eq, nofun⟩, rfl⟩
  | stop =>
    rintro tree rest ⟨⟩ d respects tree_eq fits
    exact ⟨d, respects, rfl, tree_eq, fun precedence outer => (fits precedence outer).1⟩
  | @fold least left right operator tokens behind precedence _ _ _ found binds reads _ operand onward =>
    intro tree rest outcome d respects left_eq fits
    obtain ⟨e, tighter⟩ := operand _ _ rfl
    obtain ⟨kind, listed⟩ := PrecedenceTable.lookUp_eq_some_iff.mp found
    have joined : (Derivation.join operator precedence kind listed d e).Respects := by
      refine ⟨respects, tighter.respects, ?_, ?_⟩
      · intro inner outer
        have looser := (fits inner outer).2 precedence found
        rw [UInt16.le_iff_toNat_le]
        omega
      · intro inner outer
        have above := tighter.binds inner outer
        rw [UInt16.lt_iff_toNat_lt]
        omega
    have split : (Derivation.join operator precedence kind listed d e).tokens ++ behind =
        d.tokens ++ operator :: tokens := by
      simp [Derivation.tokens, tighter.tokens_eq]
    have fits : (Derivation.join operator precedence kind listed d e).Fits least behind := by
      rintro _ ⟨⟩
      exact ⟨binds, stops_of_reads reads _ _ _ rfl rfl⟩
    rw [← split]
    exact onward tree rest outcome _ joined (by rw [Derivation.tree, left_eq, tighter.tree_eq]) fits
  | expression _ _ operand onward =>
    intro tree rest outcome
    obtain ⟨d, covers, none⟩ := operand _ _ rfl
    rw [Derives, ← covers.tokens_eq]
    exact onward tree rest outcome d covers.respects covers.tree_eq (by simp [Derivation.Fits, none])
  | _ => rintro tree rest ⟨⟩

theorem stops_of_unlisted {token : Token} {text : String} (unlisted : parser.precedence.get? text = none)
    (isOp : token.isOp text = true) (rest : List Token) : parser.Stops 0 (token :: rest) := by
  obtain ⟨-, rfl⟩ := Token.isOp_iff.mp isOp
  rw [stops_cons]
  intro precedence found
  obtain ⟨-, listed⟩ := PrecedenceTable.lookUp_eq_some_iff.mp found
  simp [unlisted] at listed

/-- In front of tokens that it fits, a derivation that respects precedences is read up to its end, and then
the climb goes on. -/
theorem exists_reads_of_respects (unlisted : parser.precedence.get? ")" = none) (d : Derivation parser) :
    ∀ (previous : Token) (least : Nat) (rest : List Token) (outcome : Outcome) (events : List Event),
      d.Respects → d.Fits least rest → Reads parser (.climb least d.tree rest) outcome events →
      ∃ more, Reads parser (.expression least previous (d.tokens ++ rest)) outcome more := by
  induction d with
  | leaf token tree accepted same =>
    intro previous least rest outcome events _ _ onward
    exact ⟨_, .expression (.leaf (leaf?_eq_some_iff.mpr ⟨accepted, same⟩)) onward⟩
  | group opening closing opens closes inner ih =>
    intro previous least rest outcome events respects _ onward
    have stops := stops_of_unlisted unlisted closes rest
    have fits : inner.Fits 0 (closing :: rest) :=
      fun precedence _ => ⟨Nat.zero_le _, stops.mono (Nat.zero_le _)⟩
    obtain ⟨_, reads⟩ := ih opening 0 (closing :: rest) _ _ respects fits (.stop stops)
    have split : (Derivation.group opening closing opens closes inner).tokens ++ rest =
        opening :: (inner.tokens ++ closing :: rest) := by
      simp [Derivation.tokens]
    rw [split]
    exact ⟨_, .expression (.group opens reads closes) onward⟩
  | join operator precedence kind listed left right ihLeft ihRight =>
    intro previous least rest outcome events respects fits onward
    obtain ⟨respectsLeft, respectsRight, looser, tighter⟩ := respects
    obtain ⟨binds, stops⟩ := fits precedence rfl
    have found := PrecedenceTable.lookUp_eq_some_iff.mpr ⟨kind, listed⟩
    have fitsRight : right.Fits (precedence.toNat + 1) rest := by
      intro inner outer
      have above := UInt16.lt_iff_toNat_lt.mp (tighter inner outer)
      exact ⟨above, stops.mono (by omega)⟩
    obtain ⟨_, reads⟩ := ihRight operator _ rest _ _ respectsRight fitsRight (.stop stops)
    have fitsLeft : left.Fits least (operator :: (right.tokens ++ rest)) := by
      intro inner outer
      have below := UInt16.le_iff_toNat_le.mp (looser inner outer)
      refine ⟨by omega, stops_cons.mpr fun other same => ?_⟩
      rw [found] at same
      cases same
      omega
    have split : (Derivation.join operator precedence kind listed left right).tokens ++ rest =
        left.tokens ++ operator :: (right.tokens ++ rest) := by
      simp [Derivation.tokens]
    rw [split]
    exact ihLeft previous least _ outcome _ respectsLeft fitsLeft (.fold found binds reads onward)

/-- The parser accepts just the tokens that have a derivation which respects precedences, and builds its
tree: operators bind by their precedences, and those of one precedence associate to the left. -/
theorem parse_ok_iff_exists_derivation (unlisted : parser.precedence.get? ")" = none) (tokens : List Token)
    (tree : Expr) (log : Log) :
    ((parser.parse tokens).run log).1 = .ok tree ↔
      ∃ d : Derivation parser, d.Respects ∧ d.tokens = tokens ∧ d.tree = tree := by
  cases tokens with
  | nil =>
    constructor
    · intro parsed
      cases parsed
    · rintro ⟨d, -, empty, -⟩
      exact (d.tokens_ne_nil empty).elim
  | cons token rest =>
    rw [parse_eq_ok_iff]
    constructor
    · rintro ⟨events, reads⟩
      obtain ⟨d, covers⟩ := derives_of_reads reads _ _ rfl
      exact ⟨d, covers.respects, by simpa using covers.tokens_eq, covers.tree_eq⟩
    · rintro ⟨d, respects, tokens_eq, rfl⟩
      rw [← tokens_eq]
      have reads := exists_reads_of_respects unlisted d token 0 [] _ _ respects
        (fun precedence _ => ⟨Nat.zero_le _, stops_nil _⟩) (.stop (stops_nil 0))
      rwa [List.append_nil] at reads

/-- The tokens of `2-(3-4)*5`. -/
theorem parse_grouped_difference :
    (Arithmetic.grammar.parser "2-(3-4)*5").precedence.get? ")" = none ∧
    (((Arithmetic.grammar.parser "2-(3-4)*5").parse [⟨"2", .int, 0⟩, ⟨"-", .op, 1⟩, ⟨"(", .op, 2⟩,
      ⟨"3", .int, 3⟩, ⟨"-", .op, 4⟩, ⟨"4", .int, 5⟩, ⟨")", .op, 6⟩, ⟨"*", .op, 7⟩,
      ⟨"5", .int, 8⟩]).run {}).1 =
      .ok (.op "-" (.int "2") (.op "*" (.op "-" (.int "3") (.int "4")) (.int "5"))) := by
  have unlisted : (Arithmetic.grammar.parser "2-(3-4)*5").precedence.get? ")" = none := by decide
  refine ⟨unlisted, (parse_ok_iff_exists_derivation unlisted _ _ _).mpr
    ⟨.join ⟨"-", .op, 1⟩ 20 rfl (by decide) (.leaf ⟨"2", .int, 0⟩ _ rfl rfl)
      (.join ⟨"*", .op, 7⟩ 40 rfl (by decide)
        (.group ⟨"(", .op, 2⟩ ⟨")", .op, 6⟩ (by decide) (by decide)
          (.join ⟨"-", .op, 4⟩ 20 rfl (by decide) (.leaf ⟨"3", .int, 3⟩ _ rfl rfl)
            (.leaf ⟨"4", .int, 5⟩ _ rfl rfl)))
        (.leaf ⟨"5", .int, 8⟩ _ rfl rfl)), ?_, rfl, rfl⟩⟩
  simp [Derivation.Respects, Derivation.outermost?]

end Parser

end Formula
