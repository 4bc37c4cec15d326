import Formula.Proofs.Parser.Reading

/-!
# The verdict on tokens

Whether tokens are an expression, and which of them is at fault, can be told by going over them once. A scan
keeps the number of open parentheses and whether it waits for an operand or for an operator, and builds no
tree. The parser gives its verdict (`verdict_parse_eq_scan`), however its calls are nested when a token is
refused (`onward_of_reads`).
-/

namespace Formula

/-- What a scan waits for. -/
inductive Wanted where
  | operand | operator
  deriving DecidableEq, Repr

/-- All that a scan keeps of the tokens behind it. -/
structure Scan where
  depth : Nat := 0
  wanted : Wanted := .operand
  deriving DecidableEq, Repr

namespace Scan

def step (parser : Parser) (scan : Scan) (token : Token) : Except SyntaxError Scan :=
  match scan.wanted with
  | .operand =>
    if token.kind ≠ .op ∧ parser.isLeaf token.kind then .ok { scan with wanted := .operator }
    else if token.isOp "(" then .ok { scan with depth := scan.depth + 1 }
    else .error (.placed (.expectedOperand token.text) token.offset parser.source)
  | .operator =>
    if (parser.precedence.lookUp token).isSome then .ok { scan with wanted := .operand }
    else if 0 < scan.depth then
      if token.isOp ")" then .ok { scan with depth := scan.depth - 1 }
      else .error (.placed (.mismatch ")" token.text) token.offset parser.source)
    else .error (.placed (.trailingToken token.text) token.offset parser.source)

/-- The verdict at the end of tokens that end in `last`. -/
def finish (parser : Parser) (last : Token) (scan : Scan) : Except SyntaxError Unit :=
  match scan.wanted with
  | .operand => .error (.placed (.prematureEnd last.text) last.offset parser.source)
  | .operator =>
    if 0 < scan.depth then
      .error (.placed (.mismatch ")" "end of input") parser.source.utf8ByteSize parser.source)
    else .ok ()

/-- The verdict once the scan has gone over the rest of the tokens. -/
def onward (parser : Parser) (last : Token) (scan : Scan) (tokens : List Token) :
    Except SyntaxError Unit := do
  let scan ← tokens.foldlM (step parser) scan
  scan.finish parser last

theorem onward_cons {parser : Parser} {last token : Token} {scan : Scan} {rest : List Token} :
    scan.onward parser last (token :: rest) =
      scan.step parser token >>= fun scan => scan.onward parser last rest := by
  rw [onward, List.foldlM_cons, bind_assoc]
  rfl

end Scan

/-- The verdict of one scan over all of the tokens. -/
def Parser.scan (parser : Parser) (tokens : List Token) : Except SyntaxError Unit :=
  match tokens.getLast? with
  | none => .error .emptyTokens
  | some last => ({} : Scan).onward parser last tokens

namespace Parser

variable {parser : Parser}

/-! ### Single tokens -/

theorem exists_leaf?_iff {token : Token} :
    (∃ tree, parser.leaf? token = some tree) ↔ token.kind ≠ .op ∧ parser.isLeaf token.kind = true := by
  simp only [leaf?_eq_some_iff]
  cases token.kind <;> simp [Expr.leaf?]

theorem step_leaf {token : Token} {tree : Expr} {depth : Nat} (found : parser.leaf? token = some tree) :
    Scan.step parser ⟨depth, .operand⟩ token = .ok ⟨depth, .operator⟩ :=
  if_pos (exists_leaf?_iff.mp ⟨tree, found⟩)

theorem onward_opening {opening last : Token} {tokens : List Token} {depth : Nat}
    (opens : opening.isOp "(" = true) :
    Scan.onward parser last ⟨depth, .operand⟩ (opening :: tokens) =
      Scan.onward parser last ⟨depth + 1, .operand⟩ tokens := by
  obtain ⟨kind, -⟩ := Token.isOp_iff.mp opens
  have step : Scan.step parser ⟨depth, .operand⟩ opening = .ok ⟨depth + 1, .operand⟩ := by
    simp [Scan.step, kind, opens]
  rw [Scan.onward_cons, step]
  rfl

theorem onward_operator {operator last : Token} {tokens : List Token} {precedence : UInt16} {depth : Nat}
    (found : parser.precedence.lookUp operator = some precedence) :
    Scan.onward parser last ⟨depth, .operator⟩ (operator :: tokens) =
      Scan.onward parser last ⟨depth, .operand⟩ tokens := by
  have step : Scan.step parser ⟨depth, .operator⟩ operator = .ok ⟨depth, .operand⟩ := by
    simp [Scan.step, found]
  rw [Scan.onward_cons, step]
  rfl

theorem step_misplaced {token : Token} {depth : Nat} (none : parser.leaf? token = none)
    (closed : token.isOp "(" = false) :
    Scan.step parser ⟨depth, .operand⟩ token =
      .error (.placed (.expectedOperand token.text) token.offset parser.source) := by
  have refused : ¬ (token.kind ≠ .op ∧ parser.isLeaf token.kind = true) := by
    rw [← exists_leaf?_iff]
    rintro ⟨tree, found⟩
    rw [none] at found
    cases found
  rw [Scan.step]
  dsimp only
  rw [if_neg refused, if_neg (by simp [closed])]

/-- No operator at all stands behind an expression that could take any. -/
theorem lookUp_of_stops {token : Token} {rest : List Token} (stops : parser.Stops 0 (token :: rest)) :
    parser.precedence.lookUp token = none := by
  cases found : parser.precedence.lookUp token with
  | none => rfl
  | some precedence => exact (Nat.not_lt_zero _ (stops precedence found)).elim

theorem step_closing {token : Token} {depth : Nat} (unlisted : parser.precedence.lookUp token = none)
    (closes : token.isOp ")" = true) :
    Scan.step parser ⟨depth + 1, .operator⟩ token = .ok ⟨depth, .operator⟩ := by
  simp [Scan.step, unlisted, closes]

theorem step_mismatch {token : Token} {depth : Nat} (unlisted : parser.precedence.lookUp token = none)
    (wrong : token.isOp ")" = false) :
    Scan.step parser ⟨depth + 1, .operator⟩ token =
      .error (.placed (.mismatch ")" token.text) token.offset parser.source) := by
  simp [Scan.step, unlisted, wrong]

theorem finish_open (last : Token) (depth : Nat) :
    Scan.finish parser last ⟨depth + 1, .operator⟩ =
      .error (.placed (.mismatch ")" "end of input") parser.source.utf8ByteSize parser.source) := by
  simp [Scan.finish]

theorem step_trailing {token : Token} (unlisted : parser.precedence.lookUp token = none) :
    Scan.step parser ⟨0, .operator⟩ token =
      .error (.placed (.trailingToken token.text) token.offset parser.source) := by
  simp [Scan.step, unlisted]

/-! ### Whole calls -/

/-- What a scan waits for where the call begins. -/
def Call.wanted : Call → Wanted
  | operand .. => .operand
  | climb .. => .operator
  | expression .. => .operand

/-- The tokens of a call, with the one in front of them that an error may name. -/
def Call.span : Call → List Token
  | operand token rest => token :: rest
  | climb _ _ tokens => tokens
  | expression _ previous tokens => previous :: tokens

/-- If there are any tokens, the last one is `last`. -/
def EndIn (last : Token) (tokens : List Token) : Prop :=
  ∀ token ∈ tokens.getLast?, token = last

theorem EndIn.of_suffix {last : Token} {tokens rest : List Token} (ends : EndIn last tokens)
    (suffix : rest <:+ tokens) : EndIn last rest := by
  obtain ⟨front, rfl⟩ := suffix
  intro token found
  rw [Option.mem_def] at found
  exact ends token (by simp [List.getLast?_append, found])

/-- Where a call begins, a scan comes to the verdict that it comes to where the call has ended, or to the
error of the call. The parentheses around the call are what the scan has counted. -/
theorem onward_of_reads {last : Token} {call : Call} {outcome : Outcome} {events : List Event}
    (reads : Reads parser call outcome events) :
    ∀ depth, EndIn last call.span →
      Scan.onward parser last ⟨depth, call.wanted⟩ call.tokens =
        outcome >>= fun read => Scan.onward parser last ⟨depth, .operator⟩ read.2 := by
  induction reads with
  | leaf found =>
    intro depth ends
    rw [Call.tokens, Call.wanted, Scan.onward_cons, step_leaf found]
    rfl
  | misplaced none closed =>
    intro depth ends
    rw [Call.tokens, Call.wanted, Scan.onward_cons, step_misplaced none closed]
    rfl
  | group opens reads closes inner =>
    intro depth ends
    have unlisted := lookUp_of_stops (stops_of_reads reads _ _ _ rfl rfl)
    refine (onward_opening opens).trans ((inner (depth + 1) ends).trans ?_)
    show Scan.onward parser last _ (_ :: _) = Scan.onward parser last _ _
    rw [Scan.onward_cons, step_closing unlisted closes]
    rfl
  | groupMismatch opens reads wrong inner =>
    intro depth ends
    have unlisted := lookUp_of_stops (stops_of_reads reads _ _ _ rfl rfl)
    refine (onward_opening opens).trans ((inner (depth + 1) ends).trans ?_)
    show Scan.onward parser last _ (_ :: _) = _
    rw [Scan.onward_cons, step_mismatch unlisted wrong]
    rfl
  | groupEnd opens _ inner =>
    intro depth ends
    refine (onward_opening opens).trans ((inner (depth + 1) ends).trans ?_)
    exact finish_open last depth
  | groupError opens _ inner =>
    intro depth ends
    exact (onward_opening opens).trans (inner (depth + 1) ends)
  | stop => exact fun _ _ => rfl
  | fold found _ reads _ operand onward =>
    intro depth ends
    refine (onward_operator found).trans ((operand depth ends).trans ?_)
    exact onward depth (ends.of_suffix ((suffix_of_reads reads).trans (List.suffix_cons _ _)))
  | foldError found _ _ operand =>
    intro depth ends
    exact (onward_operator found).trans (operand depth ends)
  | ends =>
    intro depth ends
    cases ends _ rfl
    rfl
  | expression reads _ operand onward =>
    intro depth ends
    have ends := ends.of_suffix (List.suffix_cons _ _)
    refine (operand depth ends).trans ?_
    exact onward depth (ends.of_suffix (suffix_of_reads reads))
  | expressionError _ operand =>
    intro depth ends
    exact operand depth (ends.of_suffix (List.suffix_cons _ _))

/-- The parser accepts and refuses what a scan does, with the same fault of the same token. -/
theorem verdict_parse_eq_scan (parser : Parser) (tokens : List Token) (log : Log) :
    ((parser.parse tokens).run log).1.map (fun _ => ()) = parser.scan tokens := by
  cases tokens with
  | nil => rfl
  | cons token rest =>
    obtain ⟨outcome, events, reads⟩ := exists_reads parser (.expression 0 token (token :: rest))
    obtain ⟨last, found⟩ : ∃ last, (token :: rest).getLast? = some last :=
      ⟨_, List.getLast?_eq_some_getLast (List.cons_ne_nil token rest)⟩
    have ends : EndIn last (token :: token :: rest) := by
      intro other same
      rw [List.getLast?_cons_cons, found] at same
      exact (Option.some.inj same).symm
    rw [(emits_parse reads).value_eq, scan, found]
    refine Eq.trans ?_ (onward_of_reads reads 0 ends).symm
    rcases outcome with e | ⟨tree, _ | ⟨other, behind⟩⟩
    · rfl
    · rfl
    · have unlisted := lookUp_of_stops (stops_of_reads reads _ _ _ rfl rfl)
      show _ = Scan.onward parser last _ (_ :: _)
      rw [Scan.onward_cons, step_trailing unlisted]
      rfl

end Parser

end Formula
