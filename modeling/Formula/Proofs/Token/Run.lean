import Formula.Proofs.Emission
import Formula.Token.Lexing

/-!
# Reading all tokens

`Lexes` follows a lexing from token to token up to the end of its reading, with the tokens, the lexer that is
left and what is sent to the log. Reading all tokens does what it says (`emits_readAll`).
-/

namespace Formula.Lexing

variable {lexing : Lexing} {dropSigil : Bool}

/-- From a lexer on, the reading ends in a result and sends `events`. -/
inductive Lexes (lexing : Lexing) (dropSigil : Bool) :
    Lexer → Lexer.Result (List Token) → List Event → Prop where
  | ends {lexer after : Lexer} (read : lexing.next dropSigil lexer = (.ok none, after)) :
      Lexes lexing dropSigil lexer (.ok [], after) []
  | fails {lexer after : Lexer} {e : LexError} (read : lexing.next dropSigil lexer = (.error e, after)) :
      Lexes lexing dropSigil lexer (.error e, after) [.failure e.message]
  | token {lexer middle after : Lexer} {token : Token} {result : Except LexError (List Token)}
      {events : List Event} (read : lexing.next dropSigil lexer = (.ok (some token), middle))
      (onward : Lexes lexing dropSigil middle (result, after) events) :
      Lexes lexing dropSigil lexer (result.map (token :: ·), after) (.step token.lexedLine :: events)

theorem readAll_of_ends {lexer after : Lexer} (read : lexing.next dropSigil lexer = (.ok none, after))
    (tokens : Array Token) : lexing.readAll dropSigil lexer tokens = pure (.ok tokens.toList, after) := by
  rw [readAll]
  split
  · simp_all
  · simp_all
  · simp_all

theorem readAll_of_fails {lexer after : Lexer} {e : LexError}
    (read : lexing.next dropSigil lexer = (.error e, after)) (tokens : Array Token) :
    lexing.readAll dropSigil lexer tokens = Lexer.report (.error e, after) := by
  rw [readAll]
  split
  · simp_all
  · simp_all
  · simp_all

theorem readAll_of_token {lexer middle : Lexer} {token : Token}
    (read : lexing.next dropSigil lexer = (.ok (some token), middle)) (tokens : Array Token) :
    lexing.readAll dropSigil lexer tokens = (do
      logStep token.lexedLine
      lexing.readAll dropSigil middle (tokens.push token)) := by
  rw [readAll]
  split
  · simp_all
  · simp_all
  · simp_all

theorem emits_readAll {lexer : Lexer} {ending : Lexer.Result (List Token)} {events : List Event}
    (lexes : Lexes lexing dropSigil lexer ending events) (tokens : Array Token) :
    Emits (lexing.readAll dropSigil lexer tokens) (ending.1.map (tokens.toList ++ ·), ending.2) events := by
  induction lexes generalizing tokens with
  | ends read =>
    rw [readAll_of_ends read, Except.map, List.append_nil]
    exact .pure _
  | @fails _ after e read =>
    rw [readAll_of_fails read]
    exact (Emits.logFailure e.message).bind (.pure _)
  | @token _ _ after token result events read _ ih =>
    have same : (result.map (token :: ·)).map (tokens.toList ++ ·) =
        result.map ((tokens.push token).toList ++ ·) := by
      cases result with
      | error e => rfl
      | ok rest => simp [Except.map]
    rw [readAll_of_token read, same]
    refine (Emits.logStep token.lexedLine).bind ?_
    exact ih (tokens.push token)

theorem emits_tokenizeFrom {lexer : Lexer} {ending : Lexer.Result (List Token)} {events : List Event}
    (lexes : Lexes lexing dropSigil lexer ending events) :
    Emits (lexing.tokenizeFrom dropSigil lexer) ending events := by
  have emits := emits_readAll lexes #[]
  rcases ending with ⟨_ | _, after⟩
  · exact emits
  · exact emits

theorem emits_tokenize {source : String} {ending : Lexer.Result (List Token)} {events : List Event}
    (lexes : Lexes lexing dropSigil (.ofSource source) ending events) :
    Emits (lexing.tokenize dropSigil source) ending.1 events := by
  rw [← List.append_nil events]
  exact (emits_tokenizeFrom lexes).bind (.pure ending.1)

/-! ### Every source is read to some end -/

theorem exists_lexes (lexing : Lexing) (dropSigil : Bool) (lexer : Lexer) :
    ∃ ending events, Lexes lexing dropSigil lexer ending events := by
  induction length : lexer.rest.length using Nat.strongRecOn generalizing lexer with
  | ind size shorter =>
    rcases read : lexing.next dropSigil lexer with ⟨e | _ | token, after⟩
    · exact ⟨_, _, .fails read⟩
    · exact ⟨_, _, .ends read⟩
    · have less := rest_lt_of_next read
      rw [length] at less
      obtain ⟨⟨result, last⟩, events, onward⟩ := shorter _ less after rfl
      exact ⟨_, _, .token read onward⟩

theorem exists_emits_tokenize (lexing : Lexing) (dropSigil : Bool) (source : String) :
    ∃ result events, Emits (lexing.tokenize dropSigil source) result events := by
  obtain ⟨ending, events, lexes⟩ := exists_lexes lexing dropSigil (.ofSource source)
  exact ⟨ending.1, events, emits_tokenize lexes⟩

end Formula.Lexing
