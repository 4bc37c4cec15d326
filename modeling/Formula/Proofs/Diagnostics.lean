import Mathlib.Control.Monad.Basic
import Formula.Proofs.Build
import Formula.Proofs.Parser.Variables
import Formula.Proofs.Token.Calls

/-!
# Where build failures point

A failure that has a place quotes the source that was built and stands inside of it, on a byte that could not be
read or on a token that it names (`points_into_source`). Only a parenthesis that is still open at the end has its
place behind the last byte. So the caret under a quoted source never stands further out than that.
-/

namespace Formula

/-! ### Bytes that are not read -/

namespace Lexing

variable {lexing : Lexing} {dropSigil : Bool} {lexer after : Lexer} {e : LexError}

/-- A byte is ahead where a decoder is put to work, so its failure is at that byte. -/
theorem inside_of_reading {reading : Lexer.Reading} (more : reading.before.rest ≠ [])
    (failed : reading.result = .error e) :
    e.source = reading.before.source ∧ e.offset < reading.before.source.utf8ByteSize := by
  obtain ⟨outcome, decodes, result, -⟩ := reading.exists_decodes
  rw [result] at failed
  cases decodes with
  | accepts kind => cases failed
  | refuses atEnd =>
    cases failed
    exact ⟨rfl, Lexer.rest_ne_nil_iff.mp more⟩
  | halves logic _ =>
    cases failed
    exact ⟨rfl, Lexer.rest_ne_nil_iff.mp more⟩

theorem inside_of_next (read : lexing.next dropSigil lexer = (.error e, after)) :
    e.source = lexer.source ∧ e.offset < lexer.source.utf8ByteSize := by
  rw [← (lexing.reaches_start lexer).source_eq]
  cases made : lexing.reading? dropSigil lexer with
  | none =>
    rcases next_of_reading?_eq_none made with ends | ⟨more, refused⟩
    · cases read.symm.trans ends
    · cases read.symm.trans refused
      exact ⟨rfl, Lexer.rest_ne_nil_iff.mp more⟩
  | some reading =>
    have failed := ((next_eq_error_iff made).mp read).1
    obtain ⟨byte, ahead, -, whole⟩ := reading?_eq_some_iff.mp made
    have before : reading.before = lexing.start lexer := by rw [whole]
    rw [← before] at ahead ⊢
    refine inside_of_reading (fun ended => ?_) failed
    rw [Lexer.current?, ended] at ahead
    cases ahead

theorem inside_of_lexes {source : String} {ending : Lexer.Result (List Token)} {events : List Event}
    (lexes : Lexes lexing dropSigil (.ofSource source) ending events) (failed : ending.1 = .error e) :
    e.source = source ∧ e.offset < source.utf8ByteSize := by
  obtain ⟨entered, _, enters, read⟩ := exists_enters_of_error lexes failed
  have inside := inside_of_next read
  rwa [enters.reaches.source_eq] at inside

theorem offset_lt_of_mem {source : String} {tokens : List Token} {after : Lexer} {events : List Event}
    (lexes : Lexes lexing dropSigil (.ofSource source) (.ok tokens, after) events) {token : Token}
    (member : token ∈ tokens) : token.offset < source.utf8ByteSize := by
  have before := ((inOrder_of_lexes lexes rfl).between token member).2
  have reaches := (reaches_of_next rfl).trans (reaches_of_lexes lexes rfl)
  exact Nat.lt_of_lt_of_le before (reaches.offset_le_size (Lexer.inside_ofSource source))

end Lexing

/-! ### Tokens that are refused -/

namespace Parser

variable {parser : Parser} {tokens more : List Token} {e : SyntaxError}

/-- A fault that names one of the tokens and stands where it does, or a parenthesis open at the end. -/
inductive Blames (parser : Parser) (tokens : List Token) : SyntaxError → Prop where
  | token {fault : SyntaxFault} {token : Token} (member : token ∈ tokens)
      (names : fault.subject = token.text) :
      Blames parser tokens (.placed fault token.offset parser.source)
  | unclosed :
      Blames parser tokens (.placed (.mismatch ")" "end of input") parser.source.utf8ByteSize parser.source)

theorem Blames.mono (among : tokens ⊆ more) (blames : Blames parser tokens e) : Blames parser more e := by
  cases blames with
  | token member names => exact .token (among member) names
  | unclosed => exact .unclosed

theorem blames_of_reads {call : Call} {outcome : Outcome} {events : List Event}
    (reads : Reads parser call outcome events) : ∀ e, outcome = .error e → Blames parser call.span e := by
  induction reads with
  | leaf | group | stop =>
    intro e failed
    cases failed
  | misplaced =>
    intro e failed
    cases failed
    exact .token List.mem_cons_self rfl
  | groupMismatch _ inner =>
    intro e failed
    cases failed
    have member := (suffix_of_reads inner).subset List.mem_cons_self
    exact .token (List.mem_cons_of_mem _ member) rfl
  | groupEnd =>
    intro e failed
    cases failed
    exact .unclosed
  | groupError _ _ inner => exact inner
  | fold _ _ operand _ _ onward =>
    intro e failed
    refine (onward e failed).mono fun _ member => List.mem_cons_of_mem _ ?_
    exact (suffix_of_reads operand).subset member
  | foldError _ _ _ operand => exact operand
  | ends =>
    intro e failed
    cases failed
    exact .token List.mem_cons_self rfl
  | expression operand _ _ onward =>
    intro e failed
    have among := (suffix_of_operand operand).subset
    exact (onward e failed).mono fun _ member => List.mem_cons_of_mem _ (List.mem_cons_of_mem _ (among member))
  | expressionError _ operand =>
    intro e failed
    exact (operand e failed).mono (List.subset_cons_self _ _)

theorem blames_of_parse {log : Log} (failed : ((parser.parse tokens).run log).1 = .error e) :
    tokens = [] ∧ e = .emptyTokens ∨ Blames parser tokens e := by
  cases tokens with
  | nil =>
    cases failed
    exact .inl ⟨rfl, rfl⟩
  | cons token rest =>
    right
    obtain ⟨outcome, _, reads⟩ := exists_reads parser (.expression 0 token (token :: rest))
    rw [(emits_parse reads).value_eq] at failed
    rcases outcome with e | ⟨tree, _ | ⟨trailing, behind⟩⟩
    · cases failed
      apply (blames_of_reads reads e rfl).mono
      exact List.cons_subset.mpr ⟨List.mem_cons_self, List.Subset.refl _⟩
    · cases failed
    · cases failed
      exact .token ((suffix_of_reads reads).subset List.mem_cons_self) rfl

end Parser

/-! ### Failures of builds -/

/-- Where the failure of a build points: into the source if it has a place. -/
inductive BuildError.PointsInto (grammar : Grammar) (dropSigil : Bool) (source : String) :
    BuildError → Prop where
  | byte {character : Char} {offset : Nat} (inside : offset < source.utf8ByteSize) :
      PointsInto grammar dropSigil source (.lexical ⟨character, offset, source⟩)
  | token {fault : SyntaxFault} {token : Token} {tokens : List Token}
      (tokenized : ∀ log, ((grammar.lexing.tokenize dropSigil source).run log).1 = .ok tokens)
      (member : token ∈ tokens) (inside : token.offset < source.utf8ByteSize)
      (names : fault.subject = token.text) :
      PointsInto grammar dropSigil source (.grammatical (.placed fault token.offset source))
  | unclosed : PointsInto grammar dropSigil source
      (.grammatical (.placed (.mismatch ")" "end of input") source.utf8ByteSize source))
  | emptyTokens (tokenized : ∀ log, ((grammar.lexing.tokenize dropSigil source).run log).1 = .ok []) :
      PointsInto grammar dropSigil source (.grammatical .emptyTokens)
  | structural (e : StructuralError) : PointsInto grammar dropSigil source (.structural e)

theorem Grammar.pointsInto_of_build {grammar : Grammar} {source : String} {dropSigil : Bool} {log : Log}
    {e : BuildError} (failed : ((grammar.build source dropSigil).run log).1 = .error e) :
    e.PointsInto grammar dropSigil source := by
  obtain ⟨⟨read, after⟩, _, lexes⟩ := grammar.lexing.exists_lexes dropSigil (.ofSource source)
  have tokenized : ∀ log, ((grammar.lexing.tokenize dropSigil source).run log).1 = read :=
    (Lexing.emits_tokenize lexes).value_eq
  rw [value_build, tokenized] at failed
  cases read with
  | error lexError =>
    cases failed
    obtain ⟨quotes, inside⟩ := Lexing.inside_of_lexes lexes rfl
    obtain ⟨character, offset, _⟩ := lexError
    cases quotes
    exact .byte inside
  | ok tokens =>
    dsimp only at failed
    cases parsed : (((grammar.parser source).parse tokens).run log).1 with
    | ok tree =>
      rw [parsed] at failed
      cases failed
    | error fault =>
      rw [parsed] at failed
      cases failed
      rcases Parser.blames_of_parse parsed with ⟨rfl, rfl⟩ | blames
      · exact .emptyTokens tokenized
      · cases blames with
        | token member names =>
          exact .token tokenized member (Lexing.offset_lt_of_mem lexes member) names
        | unclosed => exact .unclosed

/-! ### Carets -/

/-- The line that sets a source off. -/
def caretRule (source : String) : String := String.ofList (List.replicate source.utf8ByteSize '-')

/-- The line that points at a byte of the source above. -/
def caretLine (offset : Nat) : String := String.ofList (List.replicate offset ' ') ++ "^"

theorem caretDiagram_eq_lines (source : String) (offset : Nat) :
    caretDiagram source offset =
      caretRule source ++ "\n" ++ source ++ "\n" ++ caretLine offset ++ "\n" ++ caretRule source ++ "\n" := by
  have caret : "^\n" = "^" ++ "\n" := by decide
  rw [caretDiagram, caret, caretLine, caretRule]
  simp only [String.append_assoc]

@[simp] theorem length_caretRule (source : String) : (caretRule source).length = source.utf8ByteSize := by
  simp [caretRule]

@[simp] theorem length_caretLine (offset : Nat) : (caretLine offset).length = offset + 1 := by
  rw [caretLine, String.length_append, String.length_ofList, List.length_replicate]
  rfl

/-- The source that a failure quotes, and the byte in it that the failure points at. -/
def BuildError.place? : BuildError → Option (String × Nat)
  | .lexical e => some (e.source, e.offset)
  | .grammatical (.placed _ offset source) => some (source, offset)
  | .grammatical .emptyTokens => none
  | .structural _ => none

theorem exists_append_placeText (text source : String) (offset : Nat) :
    ∃ headline, text ++ placeText source offset = headline ++ caretDiagram source offset :=
  ⟨text ++ (", pos [" ++ toString offset ++ ":]\n"), (String.append_assoc ..).symm⟩

theorem BuildError.exists_message_eq {e : BuildError} {quoted : String} {offset : Nat}
    (place : e.place? = some (quoted, offset)) :
    ∃ headline, e.message = headline ++ caretDiagram quoted offset := by
  cases e with
  | lexical e =>
    cases place
    exact exists_append_placeText _ _ _
  | grammatical e =>
    cases e with
    | emptyTokens => cases place
    | placed fault offset source =>
      cases place
      exact exists_append_placeText _ _ _
  | structural e => cases place

theorem BuildError.PointsInto.inside {grammar : Grammar} {dropSigil : Bool} {source quoted : String}
    {e : BuildError} {offset : Nat} (points : e.PointsInto grammar dropSigil source)
    (place : e.place? = some (quoted, offset)) : quoted = source ∧ offset ≤ source.utf8ByteSize := by
  cases points with
  | byte inside =>
    cases place
    exact ⟨rfl, Nat.le_of_lt inside⟩
  | token _ _ inside =>
    cases place
    exact ⟨rfl, Nat.le_of_lt inside⟩
  | unclosed =>
    cases place
    exact ⟨rfl, Nat.le_refl _⟩
  | emptyTokens | structural => cases place

/-- The failure of a build points into the source, and its diagram shows where: the line of the caret is never
longer than the rules by more than the caret itself. -/
theorem points_into_source (language : Language) {source : String} {dropSigil : Bool} {log : Log}
    {e : BuildError} (failed : ((language.build source dropSigil).run log).1 = .error e) :
    e.PointsInto language.grammar dropSigil source ∧
      ∀ quoted offset, e.place? = some (quoted, offset) →
        (∃ headline, e.message = headline ++
          caretRule source ++ "\n" ++ source ++ "\n" ++ caretLine offset ++ "\n" ++ caretRule source ++ "\n") ∧
        (caretLine offset).length ≤ (caretRule source).length + 1 := by
  have points : e.PointsInto language.grammar dropSigil source := by
    rcases language.build_cases source dropSigil with ⟨structural, refused⟩ | same
    · rw [refused, (Emits.throw _).value_eq] at failed
      cases failed
      exact .structural structural
    · rw [same] at failed
      exact Grammar.pointsInto_of_build failed
  refine ⟨points, ?_⟩
  intro quoted offset place
  obtain ⟨rfl, inside⟩ := points.inside place
  obtain ⟨headline, message⟩ := BuildError.exists_message_eq place
  constructor
  · refine ⟨headline, ?_⟩
    rw [message, caretDiagram_eq_lines]
    simp only [String.append_assoc]
  · rw [length_caretLine, length_caretRule]
    omega

/-- Two parentheses that are not closed: a token is in the way of the first, and the second is open at the end. -/
theorem points_into_unclosed :
    (((Language.usualArithmetic.build "(7 8" false).run {}).1 =
        .error (.grammatical (.placed (.mismatch ")" "8") 3 "(7 8")) ∧
      BuildError.PointsInto Arithmetic.grammar false "(7 8"
        (.grammatical (.placed (.mismatch ")" "8") 3 "(7 8"))) ∧
    ((Language.usualBoolean.build "(($a)" true).run {}).1 =
        .error (.grammatical (.placed (.mismatch ")" "end of input") 5 "(($a)")) ∧
      (caretLine 5).length ≤ (caretRule "(($a)").length + 1 := by
  have blocked : ((Language.usualArithmetic.build "(7 8" false).run {}).1 =
      .error (.grammatical (.placed (.mismatch ")" "8") 3 "(7 8")) := by
    decide +kernel
  have ended : ((Language.usualBoolean.build "(($a)" true).run {}).1 =
      .error (.grammatical (.placed (.mismatch ")" "end of input") 5 "(($a)")) := by
    decide +kernel
  exact ⟨⟨blocked, (points_into_source .usualArithmetic blocked).1⟩,
    ended, ((points_into_source .usualBoolean ended).2 _ _ rfl).2⟩

end Formula
