import Formula.Parser
import Formula.Proofs.Emission

/-!
# What the parser reads

`Reads` lists, call by call, all that the parser can do with some tokens: what it reads from their front,
which tokens it leaves, how it fails and which messages it sends. `exists_reads` finds a reading for every
call and `performs_of_reads` says that the parser does what a reading says, so whatever holds along every
reading holds of the parser.
-/

namespace Formula.Parser

variable {parser : Parser}

/-- A tree read from the front of some tokens with the tokens behind it, or why there is none. -/
abbrev Outcome := Except SyntaxError (Expr × List Token)

/-- The three ways to read tokens on. An expression is an operand and a climb from it. -/
inductive Call where
  | operand (token : Token) (rest : List Token)
  | climb (least : Nat) (left : Expr) (tokens : List Token)
  | expression (least : Nat) (previous : Token) (tokens : List Token)

namespace Call

def tokens : Call → List Token
  | operand token rest => token :: rest
  | climb _ _ tokens => tokens
  | expression _ _ tokens => tokens

/-- The least precedence of the operators that the call folds into its tree. -/
def least? : Call → Option Nat
  | operand .. => none
  | climb least _ _ => some least
  | expression least _ _ => some least

/-- The calls made by a call weigh less. -/
def weight : Call → Nat
  | operand _ rest => 2 * rest.length + 1
  | climb _ _ tokens => 2 * tokens.length
  | expression _ _ tokens => 2 * tokens.length

end Call

/-- The first token is no operator that binds at `least` or tighter. -/
def Stops (parser : Parser) (least : Nat) (tokens : List Token) : Prop :=
  ∀ precedence ∈ tokens.head?.bind parser.precedence.lookUp, precedence.toNat < least

theorem stops_nil (least : Nat) : parser.Stops least [] := by
  intro precedence found
  cases found

theorem stops_cons {least : Nat} {token : Token} {rest : List Token} :
    parser.Stops least (token :: rest) ↔
      ∀ precedence, parser.precedence.lookUp token = some precedence → precedence.toNat < least :=
  Iff.rfl

theorem Stops.mono {least more : Nat} {tokens : List Token} (stops : parser.Stops least tokens)
    (le : least ≤ more) : parser.Stops more tokens :=
  fun precedence found => Nat.lt_of_lt_of_le (stops precedence found) le

theorem exists_of_not_stops {least : Nat} {tokens : List Token} (goes : ¬ parser.Stops least tokens) :
    ∃ operator rest precedence, tokens = operator :: rest ∧
      parser.precedence.lookUp operator = some precedence ∧ least ≤ precedence.toNat := by
  cases tokens with
  | nil => exact (goes (stops_nil least)).elim
  | cons operator rest =>
    cases found : parser.precedence.lookUp operator with
    | none => exact (goes (stops_cons.mpr (by simp [found]))).elim
    | some precedence =>
      refine ⟨operator, rest, precedence, rfl, found, Nat.le_of_not_lt fun looser => goes ?_⟩
      rw [stops_cons]
      intro other same
      rw [found] at same
      exact Option.some.inj same ▸ looser

theorem stops_of_not_bindsTighter {precedence : UInt16} {tokens : List Token}
    (looser : parser.bindsTighter precedence tokens = false) :
    parser.Stops (precedence.toNat + 1) tokens := by
  intro next found
  rw [Option.mem_def] at found
  simp only [bindsTighter, found, decide_eq_false_iff_not, UInt16.lt_iff_toNat_lt] at looser
  omega

/-- The line for a parenthesis that is not closed. -/
def closeLine (found : String) : String := s!"Wanted `)` but found `{found}`."

/-- `call` ends in `outcome` and sends `events`. -/
inductive Reads (parser : Parser) : Call → Outcome → List Event → Prop where
  | leaf {token : Token} {rest : List Token} {tree : Expr} (found : parser.leaf? token = some tree) :
      Reads parser (.operand token rest) (.ok (tree, rest)) []
  | misplaced {token : Token} {rest : List Token} (none : parser.leaf? token = none)
      (closed : token.isOp "(" = false) :
      Reads parser (.operand token rest)
        (.error (.placed (.expectedOperand token.text) token.offset parser.source))
        [.failure s!"Expected an operand but found {token.text} instead."]
  | group {opening closing : Token} {tokens behind : List Token} {tree : Expr}
      {events : List Event} (opens : opening.isOp "(" = true)
      (inner : Reads parser (.expression 0 opening tokens) (.ok (tree, closing :: behind)) events)
      (closes : closing.isOp ")" = true) :
      Reads parser (.operand opening tokens) (.ok (tree, behind)) events
  | groupMismatch {opening other : Token} {tokens behind : List Token} {tree : Expr}
      {events : List Event} (opens : opening.isOp "(" = true)
      (inner : Reads parser (.expression 0 opening tokens) (.ok (tree, other :: behind)) events)
      (wrong : other.isOp ")" = false) :
      Reads parser (.operand opening tokens)
        (.error (.placed (.mismatch ")" other.text) other.offset parser.source))
        (events ++ [.failure (closeLine other.text)])
  | groupEnd {opening : Token} {tokens : List Token} {tree : Expr} {events : List Event}
      (opens : opening.isOp "(" = true)
      (inner : Reads parser (.expression 0 opening tokens) (.ok (tree, [])) events) :
      Reads parser (.operand opening tokens)
        (.error (.placed (.mismatch ")" "end of input") parser.source.utf8ByteSize parser.source))
        (events ++ [.failure (closeLine "end of input")])
  | groupError {opening : Token} {tokens : List Token} {e : SyntaxError}
      {events : List Event} (opens : opening.isOp "(" = true)
      (inner : Reads parser (.expression 0 opening tokens) (.error e) events) :
      Reads parser (.operand opening tokens) (.error e) events
  | stop {least : Nat} {left : Expr} {tokens : List Token} (stops : parser.Stops least tokens) :
      Reads parser (.climb least left tokens) (.ok (left, tokens)) []
  | fold {least : Nat} {left right : Expr} {operator : Token} {tokens rest : List Token}
      {precedence : UInt16} {outcome : Outcome} {first second : List Event}
      (found : parser.precedence.lookUp operator = some precedence) (binds : least ≤ precedence.toNat)
      (operand : Reads parser (.expression (precedence.toNat + 1) operator tokens)
        (.ok (right, rest)) first)
      (onward : Reads parser (.climb least (.op operator.text left right) rest) outcome second) :
      Reads parser (.climb least left (operator :: tokens)) outcome
        (first ++ .step (foldLine operator precedence) :: second)
  | foldError {least : Nat} {left : Expr} {operator : Token} {tokens : List Token}
      {precedence : UInt16} {e : SyntaxError} {events : List Event}
      (found : parser.precedence.lookUp operator = some precedence) (binds : least ≤ precedence.toNat)
      (operand : Reads parser (.expression (precedence.toNat + 1) operator tokens) (.error e) events) :
      Reads parser (.climb least left (operator :: tokens)) (.error e) events
  | ends {least : Nat} {previous : Token} :
      Reads parser (.expression least previous [])
        (.error (.placed (.prematureEnd previous.text) previous.offset parser.source))
        [.failure s!"Expression ends after `{previous.text}`."]
  | expression {least : Nat} {previous token : Token} {tokens rest : List Token} {left : Expr}
      {outcome : Outcome} {first second : List Event}
      (operand : Reads parser (.operand token tokens) (.ok (left, rest)) first)
      (onward : Reads parser (.climb least left rest) outcome second) :
      Reads parser (.expression least previous (token :: tokens)) outcome (first ++ second)
  | expressionError {least : Nat} {previous token : Token} {tokens : List Token} {e : SyntaxError}
      {events : List Event} (operand : Reads parser (.operand token tokens) (.error e) events) :
      Reads parser (.expression least previous (token :: tokens)) (.error e) events

/-! ### One step of the parser -/

/-- An operand and a climb from it. -/
def expression (parser : Parser) (least : Nat) (previous : Token) (tokens : List Token) :
    ParseM (Parsed tokens) := do
  let first ← parser.operandAfter previous tokens
  parser.climb least first.tree first.rest first.suffix

theorem leaf?_eq_none_of_isOp {token : Token} {text : String} (isOp : token.isOp text = true) :
    parser.leaf? token = none := by
  obtain ⟨kind, -⟩ := Token.isOp_iff.mp isOp
  simp [leaf?, kind, Expr.leaf?]

theorem leaf?_eq_some_iff {token : Token} {tree : Expr} :
    parser.leaf? token = some tree ↔
      parser.isLeaf token.kind = true ∧ Expr.leaf? token.kind token.text = some tree := by
  simp [leaf?]

theorem operand_group {opening : Token} {tokens : List Token} (opens : opening.isOp "(" = true) :
    parser.operand opening tokens = (do
      let inner ← parser.expression 0 opening tokens
      match same : inner.rest with
      | [] => parser.refuseClose "end of input" parser.source.utf8ByteSize
      | close :: behind =>
        if close.isOp ")" then
          return ⟨inner.tree, behind, (List.suffix_cons close behind).trans (same ▸ inner.suffix)⟩
        else
          parser.refuseClose close.text close.offset) := by
  rw [operand, leaf?_eq_none_of_isOp opens, expression, bind_assoc]
  exact if_pos opens

theorem climb_of_stops {whole tokens : List Token} {least : Nat} (left : Expr)
    (stops : parser.Stops least tokens) (suffix : tokens <:+ whole) :
    parser.climb least left tokens suffix = pure ⟨left, tokens, suffix⟩ := by
  cases tokens with
  | nil => rw [climb]
  | cons token rest =>
    rw [climb]
    cases found : parser.precedence.lookUp token with
    | none => rfl
    | some precedence => exact if_pos (stops precedence found)

/-- The right operand of an operator is an expression of tighter operators: where none follows, the climb
that is left out would have changed nothing. -/
theorem climb_fold {whole tokens : List Token} {least : Nat} {left : Expr} {operator : Token}
    {precedence : UInt16} (found : parser.precedence.lookUp operator = some precedence)
    (binds : least ≤ precedence.toNat) (suffix : operator :: tokens <:+ whole) :
    parser.climb least left (operator :: tokens) suffix = (do
      let right ← parser.expression (precedence.toNat + 1) operator tokens
      logStep (foldLine operator precedence)
      parser.climb least (.op operator.text left right.tree) right.rest
        (right.suffix.trans ((List.suffix_cons operator tokens).trans suffix))) := by
  have extend (first : Parsed tokens) :
      (if parser.bindsTighter precedence first.rest then
        parser.climb (precedence.toNat + 1) first.tree first.rest first.suffix else pure first) =
      parser.climb (precedence.toNat + 1) first.tree first.rest first.suffix := by
    cases tighter : parser.bindsTighter precedence first.rest with
    | true => rfl
    | false => exact (climb_of_stops first.tree (stops_of_not_bindsTighter tighter) first.suffix).symm
  rw [climb, found]
  dsimp only
  rw [if_neg (Nat.not_lt.mpr binds)]
  simp only [extend, expression, bind_assoc]

/-! ### The parser does what its readings say -/

/-- `work` ends in `outcome` and sends `events`, whatever the proof that comes with a tree. -/
def Gives {tokens : List Token} (work : ParseM (Parsed tokens)) : Outcome → List Event → Prop
  | .ok (tree, rest), events => ∃ suffix, Emits work.run (.ok ⟨tree, rest, suffix⟩) events
  | .error e, events => Emits work.run (.error e) events

theorem Gives.after {α : Type} {tokens : List Token} {work : ParseM α} {next : α → ParseM (Parsed tokens)}
    {value : α} {outcome : Outcome} {first second : List Event} (before : Emits work.run (.ok value) first)
    (after : Gives (next value) outcome second) : Gives (work >>= next) outcome (first ++ second) := by
  cases outcome with
  | error e => exact before.bind_ok after
  | ok read =>
    obtain ⟨suffix, after⟩ := after
    exact ⟨suffix, before.bind_ok after⟩

theorem emits_operandAfter_nil (previous : Token) :
    Emits (parser.operandAfter previous []).run
      (.error (.placed (.prematureEnd previous.text) previous.offset parser.source))
      [.failure s!"Expression ends after `{previous.text}`."] := by
  rw [operandAfter]
  exact (Emits.logFailure _).lift.bind_ok (.throw _)

theorem gives_operandAfter {previous token : Token} {rest : List Token} {outcome : Outcome}
    {events : List Event} (given : Gives (parser.operand token rest) outcome events) :
    Gives (parser.operandAfter previous (token :: rest)) outcome events := by
  rw [operandAfter]
  cases outcome with
  | error e => exact given.bind_error
  | ok read =>
    obtain ⟨suffix, given⟩ := given
    refine ⟨suffix.trans (List.suffix_cons token rest), ?_⟩
    rw [← List.append_nil events]
    exact given.bind_ok (.return_ok _)

theorem emits_refuseClose {α : Type} (found : String) (offset : Nat) :
    Emits (parser.refuseClose found offset : ParseM α).run
      (.error (.placed (.mismatch ")" found) offset parser.source)) [.failure (closeLine found)] :=
  (Emits.logFailure _).lift.bind_ok (.throw _)

/-- What a reading of a call says of the parser. A climb may stand anywhere in the tokens. -/
def Performs (parser : Parser) (outcome : Outcome) (events : List Event) : Call → Prop
  | .operand token rest => Gives (parser.operand token rest) outcome events
  | .climb least left tokens =>
    ∀ (whole : List Token) (suffix : tokens <:+ whole),
      Gives (parser.climb least left tokens suffix) outcome events
  | .expression least previous tokens =>
    Gives (parser.expression least previous tokens) outcome events

theorem performs_of_reads {call : Call} {outcome : Outcome} {events : List Event}
    (reads : Reads parser call outcome events) : Performs parser outcome events call := by
  induction reads with
  | leaf found =>
    rw [Performs, operand, found]
    exact ⟨List.suffix_refl _, .return_ok _⟩
  | misplaced none closed =>
    rw [Performs, operand, none]
    dsimp only
    rw [if_neg (by simp [closed])]
    exact (Emits.logFailure _).lift.bind_ok (.throw _)
  | @group _ _ _ _ _ events opens _ closes inner =>
    dsimp only [Performs] at inner ⊢
    rw [operand_group opens, ← List.append_nil events]
    obtain ⟨suffix, inner⟩ := inner
    refine Gives.after inner ?_
    dsimp only
    rw [if_pos closes]
    exact ⟨_, .return_ok _⟩
  | groupMismatch opens _ wrong inner =>
    dsimp only [Performs] at inner ⊢
    rw [operand_group opens]
    obtain ⟨suffix, inner⟩ := inner
    refine Gives.after inner ?_
    dsimp only
    rw [if_neg (by simp [wrong])]
    exact emits_refuseClose _ _
  | groupEnd opens _ inner =>
    dsimp only [Performs] at inner ⊢
    rw [operand_group opens]
    obtain ⟨suffix, inner⟩ := inner
    exact Gives.after inner (emits_refuseClose _ _)
  | groupError opens _ inner =>
    dsimp only [Performs] at inner ⊢
    rw [operand_group opens]
    exact inner.bind_error
  | stop stops =>
    intro whole suffix
    rw [climb_of_stops _ stops]
    exact ⟨suffix, .return_ok _⟩
  | fold found binds _ _ operand onward =>
    intro whole suffix
    rw [climb_fold found binds]
    obtain ⟨_, operand⟩ := operand
    exact Gives.after operand (Gives.after (Emits.logStep _).lift (onward _ _))
  | foldError found binds _ operand =>
    intro whole suffix
    rw [climb_fold found binds]
    exact operand.bind_error
  | ends => exact (emits_operandAfter_nil _).bind_error
  | expression _ _ operand onward =>
    dsimp only [Performs] at operand onward
    obtain ⟨_, operand⟩ := gives_operandAfter operand
    exact Gives.after operand (onward _ _)
  | expressionError _ operand =>
    rw [Performs] at operand
    exact (gives_operandAfter operand).bind_error

theorem suffix_of_operand {token : Token} {tokens rest : List Token} {tree : Expr} {events : List Event}
    (reads : Reads parser (.operand token tokens) (.ok (tree, rest)) events) : rest <:+ tokens := by
  obtain ⟨suffix, -⟩ := performs_of_reads reads
  exact suffix

theorem suffix_of_reads {call : Call} {tree : Expr} {rest : List Token} {events : List Event}
    (reads : Reads parser call (.ok (tree, rest)) events) : rest <:+ call.tokens := by
  cases call with
  | operand token tokens => exact (suffix_of_operand reads).trans (List.suffix_cons token tokens)
  | climb least left tokens =>
    obtain ⟨suffix, -⟩ := performs_of_reads reads tokens (List.suffix_refl tokens)
    exact suffix
  | expression least previous tokens =>
    obtain ⟨suffix, -⟩ := performs_of_reads reads
    exact suffix

/-- A climb goes on until it comes to the end or to an operator that binds too loosely. -/
theorem stops_of_reads {call : Call} {outcome : Outcome} {events : List Event}
    (reads : Reads parser call outcome events) :
    ∀ least tree rest, call.least? = some least → outcome = .ok (tree, rest) → parser.Stops least rest := by
  induction reads with
  | stop stops =>
    rintro least tree rest ⟨⟩ ⟨⟩
    exact stops
  | fold _ _ _ _ _ onward => exact onward
  | expression _ _ _ onward => exact onward
  | _ => rintro least tree rest ⟨⟩ ⟨⟩

/-! ### Every call has a reading -/

theorem exists_reads (parser : Parser) (call : Call) : ∃ outcome events, Reads parser call outcome events := by
  induction weight : call.weight using Nat.strongRecOn generalizing call with
  | ind size lighter =>
    subst weight
    cases call with
    | operand token rest =>
      cases found : parser.leaf? token with
      | some tree => exact ⟨_, _, .leaf found⟩
      | none =>
        cases opens : token.isOp "(" with
        | false => exact ⟨_, _, .misplaced found opens⟩
        | true =>
          obtain ⟨outcome, events, inner⟩ := lighter _ (by simp [Call.weight]) (.expression 0 token rest) rfl
          rcases outcome with e | ⟨tree, _ | ⟨close, behind⟩⟩
          · exact ⟨_, _, .groupError opens inner⟩
          · exact ⟨_, _, .groupEnd opens inner⟩
          · cases closes : close.isOp ")" with
            | true => exact ⟨_, _, .group opens inner closes⟩
            | false => exact ⟨_, _, .groupMismatch opens inner closes⟩
    | climb least left tokens =>
      by_cases stops : parser.Stops least tokens
      · exact ⟨_, _, .stop stops⟩
      · obtain ⟨operator, rest, precedence, rfl, found, binds⟩ := exists_of_not_stops stops
        obtain ⟨outcome, first, operand⟩ := lighter _ (by simp [Call.weight])
          (.expression (precedence.toNat + 1) operator rest) rfl
        rcases outcome with e | ⟨right, behind⟩
        · exact ⟨_, _, .foldError found binds operand⟩
        · have shorter := (suffix_of_reads operand).length_le
          dsimp only [Call.tokens] at shorter
          obtain ⟨outcome, second, onward⟩ := lighter _ (by simp [Call.weight]; omega)
            (.climb least (.op operator.text left right) behind) rfl
          exact ⟨_, _, .fold found binds operand onward⟩
    | expression least previous tokens =>
      cases tokens with
      | nil => exact ⟨_, _, .ends⟩
      | cons token rest =>
        obtain ⟨outcome, first, operand⟩ := lighter _ (by simp [Call.weight]; omega) (.operand token rest) rfl
        rcases outcome with e | ⟨left, behind⟩
        · exact ⟨_, _, .expressionError operand⟩
        · have shorter := (suffix_of_operand operand).length_le
          obtain ⟨outcome, second, onward⟩ := lighter _ (by simp [Call.weight]; omega)
            (.climb least left behind) rfl
          exact ⟨_, _, .expression operand onward⟩

/-! ### All of the tokens -/

/-- What an expression comes to when it has to use all tokens. -/
def complete (parser : Parser) : Outcome → Except SyntaxError Expr
  | .ok (tree, []) => .ok tree
  | .ok (_, token :: _) => .error (.placed (.trailingToken token.text) token.offset parser.source)
  | .error e => .error e

/-- The message of an expression that uses all tokens. -/
def completeEvents : Outcome → List Event
  | .ok (tree, []) => [.step s!"Successfully parsed expression: {tree.infixText}"]
  | .ok (_, _ :: _) => []
  | .error _ => []

theorem emits_parse {token : Token} {rest : List Token} {outcome : Outcome} {events : List Event}
    (reads : Reads parser (.expression 0 token (token :: rest)) outcome events) :
    Emits (parser.parse (token :: rest)).run (parser.complete outcome)
      (events ++ completeEvents outcome) := by
  rw [parse]
  cases reads with
  | expressionError operand =>
    rw [completeEvents, List.append_nil]
    exact (performs_of_reads operand).bind_error
  | expression operand onward =>
    obtain ⟨_, operand⟩ := performs_of_reads operand
    have onward := performs_of_reads onward
    rw [List.append_assoc]
    refine operand.bind_ok ?_
    rcases outcome with e | ⟨tree, behind⟩
    · rw [completeEvents, List.append_nil]
      exact (onward rest _).bind_error
    · obtain ⟨_, onward⟩ := onward rest _
      cases behind with
      | nil => exact onward.bind_ok ((Emits.logStep _).lift.bind_ok (.return_ok _))
      | cons token behind => exact onward.bind_ok (.throw _)

theorem parse_eq_ok_iff {token : Token} {rest : List Token} {tree : Expr} {log : Log} :
    ((parser.parse (token :: rest)).run log).1 = .ok tree ↔
      ∃ events, Reads parser (.expression 0 token (token :: rest)) (.ok (tree, [])) events := by
  constructor
  · intro parsed
    obtain ⟨outcome, events, reads⟩ := exists_reads parser (.expression 0 token (token :: rest))
    rw [(emits_parse reads).value_eq] at parsed
    rcases outcome with e | ⟨read, _ | ⟨token, behind⟩⟩
    · cases parsed
    · cases parsed
      exact ⟨events, reads⟩
    · cases parsed
  · rintro ⟨events, reads⟩
    exact (emits_parse reads).value_eq log

theorem exists_emits_parse (parser : Parser) (tokens : List Token) :
    ∃ result events, Emits (parser.parse tokens).run result events := by
  cases tokens with
  | nil => exact ⟨_, _, .throw SyntaxError.emptyTokens⟩
  | cons token rest =>
    obtain ⟨_, _, reads⟩ := exists_reads parser (.expression 0 token (token :: rest))
    exact ⟨_, _, emits_parse reads⟩

end Formula.Parser
