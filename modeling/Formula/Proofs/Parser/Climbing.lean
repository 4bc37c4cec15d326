import Formula.Arithmetic
import Formula.Proofs.Parser.Reading

/-!
# The calls of a climb

`Arrives` follows the parser over some tokens from call to call: to the expressions and operands that it is about
to read, and to every turn of every climb. The results of calls are those of the parser's functions (`Yields`), so
whatever is kept from place to place (`Arrives.keeps`) holds of each call that a parse makes, be the parse a success
or not. A climb that returns has come to its result by its turns (`exists_arrives_of_returns`).
-/

namespace Formula.Parser

variable {parser : Parser}

/-- The precedence that a climb compares with the least one it is asked for. It is negative if there is no operator
in front. -/
def precedenceAt (parser : Parser) (tokens : List Token) : Int :=
  match tokens.head?.bind parser.precedence.lookUp with
  | some precedence => precedence.toNat
  | none => -1

/-- How many tokens have been read when `tokens` are left. -/
def index (whole tokens : List Token) : Nat := whole.length - tokens.length

/-- How a climb is called: the least precedence it is asked for, the tree it extends and the tokens in front of it. -/
structure Climb where
  least : Nat
  left : Expr
  tokens : List Token

/-- On every log, `work` reads `tree` and leaves `rest`. -/
def Yields {tokens : List Token} (work : ParseM (Parsed tokens)) (tree : Expr) (rest : List Token) : Prop :=
  ∃ suffix, ∀ log, (work.run log).1 = .ok ⟨tree, rest, suffix⟩

/-- The parser reads the operand `tree` from the front of `tokens` and leaves `rest`. -/
def TakesOperand (parser : Parser) (tokens : List Token) (tree : Expr) (rest : List Token) : Prop :=
  ∃ token behind, tokens = token :: behind ∧ Yields (parser.operand token behind) tree rest

/-- The climb returns `tree` and leaves `rest`. -/
def Returns (parser : Parser) (call : Climb) (tree : Expr) (rest : List Token) : Prop :=
  Yields (parser.climb call.least call.left call.tokens (List.suffix_refl call.tokens)) tree rest

/-- A turn of a climb that folds the operator in front of it, whose right operand may need a climb of its own. -/
inductive Turns (parser : Parser) (least : Nat) : Expr → List Token → Expr → List Token → Prop where
  | direct {left right : Expr} {operator : Token} {tokens rest : List Token} {precedence : UInt16}
      (found : parser.precedence.lookUp operator = some precedence) (binds : ¬ precedence.toNat < least)
      (operand : parser.TakesOperand tokens right rest)
      (looser : parser.bindsTighter precedence rest = false) :
      Turns parser least left (operator :: tokens) (.op operator.text left right) rest
  | extended {left first right : Expr} {operator : Token} {tokens middle rest : List Token}
      {precedence : UInt16} (found : parser.precedence.lookUp operator = some precedence)
      (binds : ¬ precedence.toNat < least) (operand : parser.TakesOperand tokens first middle)
      (tighter : parser.bindsTighter precedence middle = true)
      (returns : parser.Returns ⟨precedence.toNat + 1, first, middle⟩ right rest) :
      Turns parser least left (operator :: tokens) (.op operator.text left right) rest

/-- What the parser is about to do: read an expression, read an operand, or take another turn in a climb that has
folded some operators by now. -/
inductive Place where
  | expression (tokens : List Token)
  | operand (tokens : List Token)
  | climb (call : Climb) (folds : Nat) (left : Expr) (tokens : List Token)

/-- The places that the parser comes to when it parses `whole`. -/
inductive Arrives (parser : Parser) (whole : List Token) : Place → Prop where
  | start (nonempty : whole ≠ []) : Arrives parser whole (.expression whole)
  | operand {tokens : List Token} (here : Arrives parser whole (.expression tokens)) :
      Arrives parser whole (.operand tokens)
  | climb {tokens rest : List Token} {first : Expr} (here : Arrives parser whole (.expression tokens))
      (operand : parser.TakesOperand tokens first rest) :
      Arrives parser whole (.climb ⟨0, first, rest⟩ 0 first rest)
  | group {opening : Token} {tokens : List Token} (here : Arrives parser whole (.operand (opening :: tokens)))
      (none : parser.leaf? opening = none) (opens : opening.isOp "(" = true) :
      Arrives parser whole (.expression tokens)
  | right {call : Climb} {folds : Nat} {left : Expr} {operator : Token} {tokens : List Token}
      {precedence : UInt16} (here : Arrives parser whole (.climb call folds left (operator :: tokens)))
      (found : parser.precedence.lookUp operator = some precedence)
      (binds : ¬ precedence.toNat < call.least) : Arrives parser whole (.operand tokens)
  | extend {call : Climb} {folds : Nat} {left first : Expr} {operator : Token} {tokens rest : List Token}
      {precedence : UInt16} (here : Arrives parser whole (.climb call folds left (operator :: tokens)))
      (found : parser.precedence.lookUp operator = some precedence)
      (binds : ¬ precedence.toNat < call.least) (operand : parser.TakesOperand tokens first rest)
      (tighter : parser.bindsTighter precedence rest = true) :
      Arrives parser whole (.climb ⟨precedence.toNat + 1, first, rest⟩ 0 first rest)
  | turn {call : Climb} {folds : Nat} {left next : Expr} {tokens rest : List Token}
      (here : Arrives parser whole (.climb call folds left tokens))
      (turns : parser.Turns call.least left tokens next rest) :
      Arrives parser whole (.climb call (folds + 1) next rest)

/-! ### Precedences -/

theorem precedenceAt_lt_iff {least : Nat} {tokens : List Token} :
    parser.precedenceAt tokens < least ↔ parser.Stops least tokens := by
  rw [precedenceAt, Stops]
  cases tokens.head?.bind parser.precedence.lookUp with
  | none =>
    refine iff_of_true ?_ (by rintro _ ⟨⟩)
    dsimp only
    omega
  | some precedence => simp

theorem exists_operator_of_le_precedenceAt {least : Nat} {tokens : List Token}
    (passes : (least : Int) ≤ parser.precedenceAt tokens) :
    ∃ operator behind, tokens = operator :: behind ∧ operator.kind = .op ∧
      parser.precedence.contains operator.text = true := by
  have goes : ¬ parser.Stops least tokens := by
    rw [← precedenceAt_lt_iff]
    omega
  obtain ⟨operator, behind, precedence, rfl, found, -⟩ := exists_of_not_stops goes
  obtain ⟨kind, found⟩ := PrecedenceTable.lookUp_eq_some_iff.mp found
  refine ⟨operator, behind, rfl, kind, ?_⟩
  rw [PrecedenceTable.contains, found]
  rfl

/-- An operator that another one binds tighter than does not have the greatest precedence there is. -/
theorem succ_le_of_bindsTighter {precedence : UInt16} {tokens : List Token}
    (tighter : parser.bindsTighter precedence tokens = true) : precedence.toNat + 1 ≤ 65535 := by
  unfold bindsTighter at tighter
  split at tighter
  · rename_i next found
    have below := UInt16.lt_iff_toNat_lt.mp (of_decide_eq_true tighter)
    have bounded := next.toNat_lt
    omega
  · cases tighter

/-! ### The tokens that are left -/

theorem TakesOperand.length_lt {tokens rest : List Token} {tree : Expr}
    (takes : parser.TakesOperand tokens tree rest) : rest.length < tokens.length := by
  obtain ⟨token, behind, rfl, suffix, -⟩ := takes
  exact Nat.lt_succ_of_le suffix.length_le

theorem TakesOperand.suffix {tokens rest : List Token} {tree : Expr}
    (takes : parser.TakesOperand tokens tree rest) : rest <:+ tokens := by
  obtain ⟨token, behind, rfl, suffix, -⟩ := takes
  exact suffix.trans (List.suffix_cons token behind)

theorem Returns.suffix {call : Climb} {tree : Expr} {rest : List Token}
    (returns : parser.Returns call tree rest) : rest <:+ call.tokens := by
  obtain ⟨suffix, -⟩ := returns
  exact suffix

theorem Turns.suffix {least : Nat} {left next : Expr} {tokens rest : List Token}
    (turns : parser.Turns least left tokens next rest) : rest <:+ tokens := by
  cases turns with
  | direct _ _ operand _ => exact operand.suffix.trans (List.suffix_cons _ _)
  | extended _ _ operand _ returns =>
    exact returns.suffix.trans (operand.suffix.trans (List.suffix_cons _ _))

/-- A turn takes an operator and an operand. -/
theorem Turns.length_le {least : Nat} {left next : Expr} {tokens rest : List Token}
    (turns : parser.Turns least left tokens next rest) : rest.length + 2 ≤ tokens.length := by
  cases turns with
  | direct _ _ operand _ =>
    have := operand.length_lt
    simp only [List.length_cons]
    omega
  | extended _ _ operand _ returns =>
    have := operand.length_lt
    have := returns.suffix.length_le
    simp only [List.length_cons] at *
    omega

/-- What a climb keeps from turn to turn. -/
structure Climb.Keeps (whole : List Token) (call : Climb) (folds : Nat) (tokens : List Token) : Prop where
  least_le : call.least ≤ 65535
  inside : call.tokens <:+ whole
  suffix : tokens <:+ call.tokens
  length_le : tokens.length + 2 * folds ≤ call.tokens.length
  eq_of_folds_eq_zero : folds = 0 → tokens = call.tokens

theorem Climb.keeps_start {whole : List Token} {call : Climb} (least_le : call.least ≤ 65535)
    (inside : call.tokens <:+ whole) : call.Keeps whole 0 call.tokens :=
  ⟨least_le, inside, List.suffix_refl _, Nat.le_refl _, fun _ => rfl⟩

theorem Climb.Keeps.turn {whole tokens rest : List Token} {call : Climb} {folds : Nat} {left next : Expr}
    (keeps : call.Keeps whole folds tokens) (turns : parser.Turns call.least left tokens next rest) :
    call.Keeps whole (folds + 1) rest where
  least_le := keeps.least_le
  inside := keeps.inside
  suffix := turns.suffix.trans keeps.suffix
  length_le := by
    have := turns.length_le
    have := keeps.length_le
    omega
  eq_of_folds_eq_zero := fun zero => (Nat.succ_ne_zero folds zero).elim

def Place.Keeps (whole : List Token) : Place → Prop
  | .expression tokens => tokens <:+ whole
  | .operand tokens => tokens <:+ whole
  | .climb call folds _ tokens => call.Keeps whole folds tokens

theorem Arrives.keeps {whole : List Token} {place : Place} (arrives : parser.Arrives whole place) :
    place.Keeps whole := by
  induction arrives with
  | start => exact List.suffix_refl whole
  | operand _ ih => exact ih
  | climb _ operand ih => exact Climb.keeps_start (Nat.zero_le _) (operand.suffix.trans ih)
  | group _ _ _ ih => exact (List.suffix_cons _ _).trans ih
  | right _ _ _ ih => exact (List.suffix_cons _ _).trans (ih.suffix.trans ih.inside)
  | extend _ _ _ operand tighter ih =>
    have inside := operand.suffix.trans ((List.suffix_cons _ _).trans (ih.suffix.trans ih.inside))
    exact Climb.keeps_start (succ_le_of_bindsTighter tighter) inside
  | turn _ turns ih => exact ih.turn turns

theorem drop_index {whole tokens : List Token} (suffix : tokens <:+ whole) :
    whole.drop (index whole tokens) = tokens := by
  obtain ⟨front, rfl⟩ := suffix
  rw [index, List.length_append, Nat.add_sub_cancel_right, List.drop_left]

/-! ### The turns of a whole climb -/

theorem Yields.of_gives {tokens rest : List Token} {work : ParseM (Parsed tokens)} {tree : Expr}
    {events : List Event} (gives : Gives work (.ok (tree, rest)) events) : Yields work tree rest := by
  obtain ⟨suffix, emits⟩ := gives
  exact ⟨suffix, emits.value_eq⟩

theorem Yields.outcome_eq {tokens rest : List Token} {work : ParseM (Parsed tokens)} {tree : Expr}
    {outcome : Outcome} {events : List Event} (yields : Yields work tree rest)
    (gives : Gives work outcome events) : outcome = .ok (tree, rest) := by
  obtain ⟨suffix, same⟩ := yields
  rcases outcome with e | ⟨tree', rest'⟩
  · have same := (gives.value_eq {}).symm.trans (same {})
    cases same
  · obtain ⟨suffix', emits⟩ := gives
    have same := (emits.value_eq {}).symm.trans (same {})
    cases same
    rfl

theorem turns_of_reads {least : Nat} {left right : Expr} {operator : Token} {tokens rest : List Token}
    {precedence : UInt16} {events : List Event}
    (found : parser.precedence.lookUp operator = some precedence) (binds : least ≤ precedence.toNat)
    (reads : Reads parser (.expression (precedence.toNat + 1) operator tokens) (.ok (right, rest)) events) :
    parser.Turns least left (operator :: tokens) (.op operator.text left right) rest := by
  have binds := Nat.not_lt.mpr binds
  cases reads with
  | @expression _ _ token tokens middle first _ _ _ operand onward =>
    have operand : parser.TakesOperand (token :: tokens) first middle :=
      ⟨token, tokens, rfl, .of_gives (performs_of_reads operand)⟩
    cases tighter : parser.bindsTighter precedence middle with
    | true => exact .extended found binds operand tighter (.of_gives (performs_of_reads onward _ _))
    | false =>
      have stops := stops_of_not_bindsTighter tighter
      cases onward with
      | stop => exact .direct found binds operand tighter
      | fold found binds => exact (Nat.not_lt.mpr binds (stops _ found)).elim

/-- A climb that returns has come to its result by its turns. -/
theorem Arrives.of_reads {whole : List Token} {called : Call} {outcome : Outcome} {events : List Event}
    (reads : Reads parser called outcome events) :
    ∀ call folds left tokens tree rest, called = .climb call.least left tokens → outcome = .ok (tree, rest) →
      parser.Arrives whole (.climb call folds left tokens) →
      ∃ folds, parser.Arrives whole (.climb call folds tree rest) ∧ parser.Stops call.least rest := by
  -- Only a stop and a fold are climbs that return.
  induction reads with
  | stop stops =>
    rintro call folds left tokens tree rest ⟨⟩ ⟨⟩ here
    exact ⟨folds, here, stops⟩
  | fold found binds operand _ _ onward =>
    rintro call folds left tokens tree rest ⟨⟩ same here
    exact onward call _ _ _ tree rest rfl same (here.turn (turns_of_reads found binds operand))
  | foldError => rintro call folds left tokens tree rest ⟨⟩ ⟨⟩
  | _ => rintro call folds left tokens tree rest ⟨⟩

/-- The parser calls the climb in this way when it parses `whole`. -/
def Makes (parser : Parser) (whole : List Token) (call : Climb) : Prop :=
  parser.Arrives whole (.climb call 0 call.left call.tokens)

theorem exists_arrives_of_returns {whole rest : List Token} {call : Climb} {tree : Expr}
    (made : parser.Makes whole call) (returns : parser.Returns call tree rest) :
    ∃ folds, parser.Arrives whole (.climb call folds tree rest) ∧ parser.Stops call.least rest := by
  obtain ⟨outcome, events, reads⟩ := exists_reads parser (.climb call.least call.left call.tokens)
  have same := returns.outcome_eq (performs_of_reads reads _ _)
  exact Arrives.of_reads reads call 0 call.left call.tokens tree rest rfl same made

/-- What holds of every call of the climb: it is asked for a precedence that an operator can have. A turn that goes
on has an operator of the table in front and takes at least two tokens. When the call returns, it has stayed among
the tokens, has moved just when it has folded an operator, and stands in front of one that binds too loosely. -/
theorem climb_contract {whole : List Token} {call : Climb} (made : parser.Makes whole call) :
    call.least ≤ 65535 ∧
    (∀ folds left tokens, parser.Arrives whole (.climb call folds left tokens) →
      whole.drop (index whole tokens) = tokens ∧
      (call.least ≤ parser.precedenceAt tokens → ∃ operator behind, tokens = operator :: behind ∧
        operator.kind = .op ∧ parser.precedence.contains operator.text = true) ∧
      ∀ next rest, parser.Turns call.least left tokens next rest →
        index whole tokens + 2 ≤ index whole rest) ∧
    ∀ tree rest, parser.Returns call tree rest →
      whole.drop (index whole rest) = rest ∧ index whole rest ≤ whole.length ∧
      parser.precedenceAt rest < call.least ∧
      (∃ folds, parser.Arrives whole (.climb call folds tree rest)) ∧
      ∀ folds, parser.Arrives whole (.climb call folds tree rest) →
        (index whole call.tokens < index whole rest ↔ 0 < folds) := by
  refine ⟨made.keeps.least_le, ?_, ?_⟩
  · intro folds left tokens here
    have inside := here.keeps.suffix.trans here.keeps.inside
    refine ⟨drop_index inside, exists_operator_of_le_precedenceAt, fun next rest turns => ?_⟩
    have := turns.length_le
    have := inside.length_le
    unfold index
    omega
  · intro tree rest returns
    obtain ⟨folds, here, stops⟩ := exists_arrives_of_returns made returns
    have inside := here.keeps.suffix.trans here.keeps.inside
    refine ⟨drop_index inside, Nat.sub_le _ _, precedenceAt_lt_iff.mpr stops, ⟨folds, here⟩, ?_⟩
    intro folds here
    obtain ⟨-, inside, suffix, length_le, unmoved⟩ := here.keeps
    have := inside.length_le
    have := suffix.length_le
    have stays : folds = 0 → rest.length = call.tokens.length := fun zero => congrArg _ (unmoved zero)
    unfold index
    omega

/-- The climb behind `1 + 2`, which folds the product that is the right operand of the sum. -/
theorem climb_within_sum :
    let parser := Arithmetic.grammar.parser "1+2*3"
    let whole : List Token := [⟨"1", .int, 0⟩, ⟨"+", .op, 1⟩, ⟨"2", .int, 2⟩, ⟨"*", .op, 3⟩, ⟨"3", .int, 4⟩]
    let call : Climb := ⟨21, .int "2", whole.drop 3⟩
    let product := Expr.op "*" (.int "2") (.int "3")
    parser.Makes whole call ∧ parser.Returns call product [] ∧ call.least ≤ 65535 ∧
      parser.precedenceAt [] < call.least ∧
      (∃ folds, parser.Arrives whole (.climb call folds product [])) ∧
      ∀ folds, parser.Arrives whole (.climb call folds product []) →
        (index whole call.tokens < index whole [] ↔ 0 < folds) := by
  intro parser whole call product
  have takes (token : Token) (tree : Expr) (rest : List Token) (found : parser.leaf? token = some tree) :
      parser.TakesOperand (token :: rest) tree rest :=
    ⟨token, rest, rfl, .of_gives (performs_of_reads (.leaf found))⟩
  have sum : parser.precedence.lookUp ⟨"+", .op, 1⟩ = some 20 := rfl
  have times : parser.precedence.lookUp ⟨"*", .op, 3⟩ = some 40 := rfl
  have made : parser.Makes whole call :=
    .extend (.climb (.start (List.cons_ne_nil _ _)) (takes ⟨"1", .int, 0⟩ (.int "1") (whole.drop 1) rfl))
      sum (by decide) (takes ⟨"2", .int, 2⟩ (.int "2") (whole.drop 3) rfl) (by decide)
  have reads : Reads parser (.climb call.least call.left call.tokens) (.ok (product, []))
      [.step (foldLine ⟨"*", .op, 3⟩ 40)] :=
    .fold times (by decide) (.expression (.leaf rfl) (.stop (stops_nil 41))) (.stop (stops_nil 21))
  have returns : parser.Returns call product [] := .of_gives (performs_of_reads reads _ _)
  obtain ⟨least_le, -, ends⟩ := climb_contract made
  obtain ⟨-, -, below, turns⟩ := ends product [] returns
  exact ⟨made, returns, least_le, below, turns⟩

end Formula.Parser
