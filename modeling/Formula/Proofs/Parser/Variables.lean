import Formula.Proofs.Expr.Keys
import Formula.Proofs.Parser.Scan

/-!
# Variables in what is read

The leaves of a tree stand in it as their tokens stand in the source, however the operators regroup them
(`keys_of_parse`). The parser tells a variable by its kind and never looks at its text: when the variables of
some tokens get other names, the tree is the same with the other names, and an error is the same at the same
place, with the other name if it is a variable's (`renamed_parse`).
-/

namespace Formula

namespace Token

def texts (kind : Kind) (tokens : List Token) : List String :=
  (tokens.filter (fun token => token.kind = kind)).map Token.text

theorem texts_cons (kind : Kind) (token : Token) (rest : List Token) :
    texts kind (token :: rest) = (if token.kind = kind then [token.text] else []) ++ texts kind rest := by
  by_cases same : token.kind = kind
  · simp [texts, same]
  · simp [texts, same]

theorem texts_cons_of_ne {kind : Kind} {token : Token} (other : token.kind ≠ kind) (rest : List Token) :
    texts kind (token :: rest) = texts kind rest := by
  rw [texts_cons, if_neg other, List.nil_append]

theorem mem_texts_iff {kind : Kind} {tokens : List Token} {text : String} :
    text ∈ texts kind tokens ↔ ∃ token ∈ tokens, token.kind = kind ∧ token.text = text := by
  simp [texts, and_assoc]

/-- The token with another name if it is a variable. -/
def rename (f : String → String) (token : Token) : Token :=
  { token with text := if token.kind = .var then f token.text else token.text }

variable {f : String → String}

@[simp] theorem kind_rename (token : Token) : (token.rename f).kind = token.kind := rfl

theorem rename_of_ne_var {token : Token} (other : token.kind ≠ .var) : token.rename f = token := by
  rw [rename, if_neg other]

theorem isOp_rename (token : Token) (text : String) : (token.rename f).isOp text = token.isOp text := by
  by_cases var : token.kind = .var
  · rw [isOp, isOp, kind_rename, var]
    rfl
  · rw [rename_of_ne_var var]

end Token

/-! ### Errors that name a token -/

namespace SyntaxFault

/-- What was found instead, or behind what something is missing. -/
def subject : SyntaxFault → String
  | .mismatch _ found => found
  | .prematureEnd after => after
  | .expectedOperand found => found
  | .trailingToken found => found

def withSubject (text : String) : SyntaxFault → SyntaxFault
  | .mismatch wanted _ => .mismatch wanted text
  | .prematureEnd _ => .prematureEnd text
  | .expectedOperand _ => .expectedOperand text
  | .trailingToken _ => .trailingToken text

end SyntaxFault

/-- Two errors on the same tokens, the second with other names for the variables. They agree in all but the
text of the token that they name. -/
inductive SyntaxError.Renamed (f : String → String) (tokens : List Token) :
    SyntaxError → SyntaxError → Prop where
  | empty : Renamed f tokens .emptyTokens .emptyTokens
  | atEnd (source : String) :
      Renamed f tokens (.placed (.mismatch ")" "end of input") source.utf8ByteSize source)
        (.placed (.mismatch ")" "end of input") source.utf8ByteSize source)
  | atToken {token : Token} {fault : SyntaxFault} (member : token ∈ tokens) (names : fault.subject = token.text)
      (source : String) :
      Renamed f tokens (.placed fault token.offset source)
        (.placed (fault.withSubject (token.rename f).text) token.offset source)

theorem SyntaxError.Renamed.mono {f : String → String} {tokens more : List Token} {e e' : SyntaxError}
    (renamed : e.Renamed f tokens e') (subset : tokens ⊆ more) : e.Renamed f more e' := by
  cases renamed with
  | empty => exact .empty
  | atEnd source => exact .atEnd source
  | atToken member names source => exact .atToken (subset member) names source

/-- The same results, the second with other names for the variables. -/
inductive Renamed {α : Type} (f : String → String) (tokens : List Token) (rename : α → α) :
    Except SyntaxError α → Except SyntaxError α → Prop where
  | ok (value : α) : Renamed f tokens rename (.ok value) (.ok (rename value))
  | error {e e' : SyntaxError} (renamed : e.Renamed f tokens e') : Renamed f tokens rename (.error e) (.error e')

theorem Renamed.mono {α : Type} {f : String → String} {tokens more : List Token} {rename : α → α}
    {result result' : Except SyntaxError α} (renamed : Renamed f tokens rename result result')
    (subset : tokens ⊆ more) : Renamed f more rename result result' := by
  cases renamed with
  | ok value => exact .ok value
  | error renamed => exact .error (renamed.mono subset)

namespace Parser

variable {parser : Parser} {f : String → String}

/-! ### The order of the leaves -/

/-- The keys of a kind in the tree that a call starts from, and then the texts of its tokens. -/
def Call.keys (kind : Kind) : Call → List String
  | operand token rest => Token.texts kind (token :: rest)
  | climb _ left tokens => left.keys kind ++ Token.texts kind tokens
  | expression _ _ tokens => Token.texts kind tokens

theorem texts_cons_of_isOp {kind : Kind} (leaf : kind ≠ .op) {token : Token} {text : String}
    (isOp : token.isOp text = true) (rest : List Token) :
    Token.texts kind (token :: rest) = Token.texts kind rest := by
  obtain ⟨op, -⟩ := Token.isOp_iff.mp isOp
  apply Token.texts_cons_of_ne
  rw [op]
  exact leaf.symm

/-- A call moves the leaves of its tokens into its tree and keeps their order. -/
theorem keys_of_reads {kind : Kind} (leaf : kind ≠ .op) {call : Call} {outcome : Outcome} {events : List Event}
    (reads : Reads parser call outcome events) :
    ∀ tree rest, outcome = .ok (tree, rest) → tree.keys kind ++ Token.texts kind rest = call.keys kind := by
  induction reads with
  | leaf found =>
    rintro tree rest ⟨⟩
    obtain ⟨-, same⟩ := leaf?_eq_some_iff.mp found
    rw [Call.keys, Token.texts_cons, Expr.keys_of_leaf? same]
  | group opens _ closes inner =>
    rintro tree rest ⟨⟩
    have inner := inner _ _ rfl
    rw [texts_cons_of_isOp leaf closes] at inner
    rw [inner, Call.keys, Call.keys, texts_cons_of_isOp leaf opens]
  | stop =>
    rintro tree rest ⟨⟩
    rfl
  | fold found _ _ _ operand onward =>
    intro tree rest outcome
    obtain ⟨op, -⟩ := PrecedenceTable.lookUp_eq_some_iff.mp found
    have operand := operand _ _ rfl
    rw [Call.keys] at operand
    rw [onward tree rest outcome, Call.keys, Expr.keys_op_of_ne_op leaf, List.append_assoc, operand, Call.keys,
      Token.texts_cons_of_ne (by rw [op]; exact leaf.symm)]
  | expression _ _ operand onward =>
    intro tree rest outcome
    exact (onward tree rest outcome).trans (operand _ _ rfl)
  | _ => rintro tree rest ⟨⟩

/-- The leaves of a tree from left to right are the leaf tokens of its source in their order. -/
theorem keys_of_parse {kind : Kind} (leaf : kind ≠ .op) {tokens : List Token} {tree : Expr} {log : Log}
    (parsed : ((parser.parse tokens).run log).1 = .ok tree) : tree.keys kind = Token.texts kind tokens := by
  cases tokens with
  | nil => cases parsed
  | cons token rest =>
    obtain ⟨_, reads⟩ := parse_eq_ok_iff.mp parsed
    have keys := keys_of_reads leaf reads _ _ rfl
    rwa [Token.texts, List.filter_nil, List.map_nil, List.append_nil] at keys

/-! ### Other names for the variables -/

theorem lookUp_rename (table : PrecedenceTable) (token : Token) :
    table.lookUp (token.rename f) = table.lookUp token := by
  by_cases var : token.kind = .var
  · simp [PrecedenceTable.lookUp, var]
  · rw [Token.rename_of_ne_var var]

theorem leaf?_rename (token : Token) :
    parser.leaf? (token.rename f) = (parser.leaf? token).map (Expr.rename f) := by
  obtain ⟨text, kind, offset⟩ := token
  by_cases accepted : parser.isLeaf kind = true
  · cases kind <;> simp [leaf?, accepted, Token.rename, Expr.leaf?, Expr.rename]
  · simp [leaf?, accepted]

theorem Stops.rename {least : Nat} {tokens : List Token} (stops : parser.Stops least tokens) :
    parser.Stops least (tokens.map (Token.rename f)) := by
  cases tokens with
  | nil => exact stops_nil least
  | cons token rest =>
    rw [List.map_cons, stops_cons, lookUp_rename]
    exact stops_cons.mp stops

def Call.rename (f : String → String) : Call → Call
  | operand token rest => operand (token.rename f) (rest.map (Token.rename f))
  | climb least left tokens => climb least (left.rename f) (tokens.map (Token.rename f))
  | expression least previous tokens => expression least (previous.rename f) (tokens.map (Token.rename f))

/-- What is read, with other names in the tree and in the tokens behind it. -/
def renameRead (f : String → String) (read : Expr × List Token) : Expr × List Token :=
  (read.1.rename f, read.2.map (Token.rename f))

/-- A call goes the same way when variables have other names, and ends the same but for the names. -/
theorem exists_reads_rename {call : Call} {outcome : Outcome} {events : List Event}
    (reads : Reads parser call outcome events) (f : String → String) :
    ∃ outcome' events', Reads parser (call.rename f) outcome' events' ∧
      Renamed f call.span (renameRead f) outcome outcome' := by
  induction reads with
  | @leaf token rest tree found =>
    have found' : parser.leaf? (token.rename f) = some (tree.rename f) := by rw [leaf?_rename, found]; rfl
    exact ⟨_, _, .leaf found', .ok (tree, rest)⟩
  | @misplaced token rest none closed =>
    have none' : parser.leaf? (token.rename f) = Option.none := by rw [leaf?_rename, none]; rfl
    exact ⟨_, _, .misplaced none' (by rw [Token.isOp_rename, closed]),
      .error (.atToken List.mem_cons_self rfl parser.source)⟩
  | @group _ _ _ behind tree _ opens _ closes inner =>
    obtain ⟨_, _, reads, renamed⟩ := inner
    cases renamed
    exact ⟨_, _, .group (by rw [Token.isOp_rename, opens]) reads (by rw [Token.isOp_rename, closes]),
      .ok (tree, behind)⟩
  | @groupMismatch opening other tokens _ _ _ opens inner wrong ih =>
    obtain ⟨_, _, reads, renamed⟩ := ih
    cases renamed
    have member : other ∈ opening :: tokens :=
      List.mem_cons_of_mem opening ((suffix_of_reads inner).subset List.mem_cons_self)
    exact ⟨_, _, .groupMismatch (by rw [Token.isOp_rename, opens]) reads (by rw [Token.isOp_rename, wrong]),
      .error (.atToken member rfl parser.source)⟩
  | groupEnd opens _ inner =>
    obtain ⟨_, _, reads, renamed⟩ := inner
    cases renamed
    exact ⟨_, _, .groupEnd (by rw [Token.isOp_rename, opens]) reads, .error (.atEnd parser.source)⟩
  | groupError opens _ inner =>
    obtain ⟨_, _, reads, renamed⟩ := inner
    cases renamed with
    | error renamed => exact ⟨_, _, .groupError (by rw [Token.isOp_rename, opens]) reads, .error renamed⟩
  | @stop least left tokens stops => exact ⟨_, _, .stop stops.rename, .ok (left, tokens)⟩
  | @fold least left right operator tokens rest precedence _ _ _ found binds inner _ operand onward =>
    obtain ⟨_, _, reads, renamed⟩ := operand
    cases renamed
    obtain ⟨outcome', events', goesOn, renamed⟩ := onward
    -- The operator keeps its text, so the tree that the climb goes on from is the renamed one.
    obtain ⟨op, -⟩ := PrecedenceTable.lookUp_eq_some_iff.mp found
    have same : operator.rename f = operator := Token.rename_of_ne_var (by rw [op]; exact nofun)
    have found' : parser.precedence.lookUp (operator.rename f) = some precedence := by rw [lookUp_rename, found]
    have goesOn' : Reads parser (.climb least (.op (operator.rename f).text (left.rename f) (right.rename f))
        (rest.map (Token.rename f))) outcome' events' := by
      rw [same]
      exact goesOn
    refine ⟨_, _, .fold found' binds reads goesOn', renamed.mono ?_⟩
    exact List.Subset.trans (suffix_of_reads inner).subset (List.subset_cons_self _ _)
  | foldError found binds _ operand =>
    obtain ⟨_, _, reads, renamed⟩ := operand
    cases renamed with
    | error renamed => exact ⟨_, _, .foldError (by rw [lookUp_rename, found]) binds reads, .error renamed⟩
  | ends => exact ⟨_, _, .ends, .error (.atToken List.mem_cons_self rfl parser.source)⟩
  | expression inner _ operand onward =>
    obtain ⟨_, _, reads, renamed⟩ := operand
    cases renamed
    obtain ⟨_, _, goesOn, renamed⟩ := onward
    refine ⟨_, _, .expression reads goesOn, renamed.mono ?_⟩
    exact List.Subset.trans (suffix_of_reads inner).subset (List.subset_cons_self _ _)
  | expressionError _ operand =>
    obtain ⟨_, _, reads, renamed⟩ := operand
    cases renamed with
    | error renamed =>
      exact ⟨_, _, .expressionError reads, .error (renamed.mono (List.subset_cons_self _ _))⟩

theorem renamed_parse (parser : Parser) (f : String → String) (tokens : List Token) (log log' : Log) :
    Renamed f tokens (Expr.rename f) ((parser.parse tokens).run log).1
      ((parser.parse (tokens.map (Token.rename f))).run log').1 := by
  cases tokens with
  | nil => exact .error .empty
  | cons token rest =>
    obtain ⟨outcome, _, reads⟩ := exists_reads parser (.expression 0 token (token :: rest))
    obtain ⟨outcome', _, reads', renamed⟩ := exists_reads_rename reads f
    have span : Call.span (.expression 0 token (token :: rest)) ⊆ token :: rest := by
      intro other member
      simpa [Call.span] using member
    replace renamed := renamed.mono span
    rw [List.map_cons, (emits_parse reads).value_eq, (emits_parse reads').value_eq]
    cases renamed with
    | error renamed => exact .error renamed
    | ok read =>
      obtain ⟨tree, _ | ⟨other, behind⟩⟩ := read
      · exact .ok tree
      · have member : other ∈ token :: rest := (suffix_of_reads reads).subset List.mem_cons_self
        exact .error (.atToken member rfl parser.source)

end Parser

end Formula
