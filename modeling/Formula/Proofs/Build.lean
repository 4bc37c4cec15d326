import Formula.Language
import Formula.Proofs.Parser.Derivation
import Formula.Proofs.Text.Characters
import Formula.Proofs.Token.Run

/-!
# Building trees

A grammar builds a tree when the tokens of the source have a derivation of it that respects precedences
(`Grammar.build_eq_ok_iff`). The two languages look at the shape of the source first: arithmetic refuses only
the empty one, and a boolean formula has to stand in parentheses.
-/

namespace Formula

namespace Grammar

variable {grammar : Grammar} {source : String} {dropSigil : Bool} {log : Log} {first second : List Event}

theorem emits_build_lexical {e : LexError}
    (failed : Emits (grammar.lexing.tokenize dropSigil source) (.error e) first) :
    Emits (grammar.build source dropSigil).run (.error (.lexical e)) first := by
  rw [build, ← List.append_nil first]
  exact failed.lift.bind_ok (.throw _)

section Tokens

variable {tokens : List Token} (tokenized : Emits (grammar.lexing.tokenize dropSigil source) (.ok tokens) first)
include tokenized

theorem emits_build_grammatical {e : SyntaxError}
    (failed : Emits ((grammar.parser source).parse tokens).run (.error e) second) :
    Emits (grammar.build source dropSigil).run (.error (.grammatical e))
      (first ++ (second ++ [.failure "Parse failed."])) := by
  rw [build]
  refine tokenized.lift.bind_ok (failed.lift.bind_ok ?_)
  exact (Emits.logFailure "Parse failed.").lift.bind_ok (.throw _)

theorem emits_build_tree {tree : Expr}
    (parsed : Emits ((grammar.parser source).parse tokens).run (.ok tree) second) :
    Emits (grammar.build source dropSigil).run (.ok tree) (first ++ second) := by
  rw [build, ← List.append_nil second]
  exact tokenized.lift.bind_ok (parsed.lift.bind_ok (.return_ok tree))

end Tokens

theorem exists_emits_build (grammar : Grammar) (source : String) (dropSigil : Bool) :
    ∃ result events, Emits (grammar.build source dropSigil).run result events := by
  obtain ⟨read, _, tokenized⟩ := grammar.lexing.exists_emits_tokenize dropSigil source
  cases read with
  | error e => exact ⟨_, _, emits_build_lexical tokenized⟩
  | ok tokens =>
    obtain ⟨result, _, parsed⟩ := (grammar.parser source).exists_emits_parse tokens
    cases result with
    | error e => exact ⟨_, _, emits_build_grammatical tokenized parsed⟩
    | ok tree => exact ⟨_, _, emits_build_tree tokenized parsed⟩

/-- A build comes to the failure of the lexing, or to what the parser makes of the tokens. -/
theorem value_build : ((grammar.build source dropSigil).run log).1 =
    match ((grammar.lexing.tokenize dropSigil source).run log).1 with
    | .error e => .error (.lexical e)
    | .ok tokens => (((grammar.parser source).parse tokens).run log).1.mapError .grammatical := by
  obtain ⟨read, _, tokenized⟩ := grammar.lexing.exists_emits_tokenize dropSigil source
  have same : ((grammar.lexing.tokenize dropSigil source).run log).1 = read := tokenized.value_eq log
  rw [same]
  cases read with
  | error e => exact (emits_build_lexical tokenized).value_eq log
  | ok tokens =>
    obtain ⟨result, _, parsed⟩ := (grammar.parser source).exists_emits_parse tokens
    have same : (((grammar.parser source).parse tokens).run log).1 = result := parsed.value_eq log
    dsimp only
    rw [same]
    cases result with
    | error e => exact (emits_build_grammatical tokenized parsed).value_eq log
    | ok tree => exact (emits_build_tree tokenized parsed).value_eq log

/-- What is built is what the parser makes of the tokens. -/
theorem build_eq_ok_iff_parse {tree : Expr} : ((grammar.build source dropSigil).run log).1 = .ok tree ↔
    ∃ tokens, ((grammar.lexing.tokenize dropSigil source).run log).1 = .ok tokens ∧
      (((grammar.parser source).parse tokens).run log).1 = .ok tree := by
  rw [value_build]
  cases ((grammar.lexing.tokenize dropSigil source).run log).1 with
  | error e => simp
  | ok tokens =>
    dsimp only
    constructor
    · intro built
      refine ⟨tokens, rfl, ?_⟩
      cases parsed : (((grammar.parser source).parse tokens).run log).1 with
      | error e =>
        rw [parsed] at built
        cases built
      | ok found =>
        rw [parsed] at built
        cases built
        rfl
    · rintro ⟨_, same, parsed⟩
      cases same
      rw [parsed]
      rfl

/-- The tokens of a source that builds a tree have a derivation of it that respects precedences. -/
theorem build_eq_ok_iff (unlisted : grammar.precedence.get? ")" = none) {tree : Expr} :
    ((grammar.build source dropSigil).run log).1 = .ok tree ↔
      ∃ derivation : Derivation (grammar.parser source), derivation.Respects ∧
        ((grammar.lexing.tokenize dropSigil source).run log).1 = .ok derivation.tokens ∧
        derivation.tree = tree := by
  rw [build_eq_ok_iff_parse]
  constructor
  · rintro ⟨tokens, tokenized, parsed⟩
    cases tokens with
    | nil => cases parsed
    | cons token rest =>
      obtain ⟨_, reads⟩ := Parser.parse_eq_ok_iff.mp parsed
      obtain ⟨derivation, covers⟩ := Parser.derives_of_reads reads _ _ rfl
      have whole : derivation.tokens = token :: rest := by simpa using covers.tokens_eq
      rw [← whole] at tokenized
      exact ⟨derivation, covers.respects, tokenized, covers.tree_eq⟩
  · rintro ⟨derivation, respects, tokenized, rfl⟩
    obtain ⟨token, rest, whole⟩ := List.exists_cons_of_ne_nil derivation.tokens_ne_nil
    have fits : derivation.Fits 0 [] := fun precedence _ => ⟨Nat.zero_le _, Parser.stops_nil _⟩
    have reads := Parser.exists_reads_of_respects unlisted derivation token 0 [] _ _ respects fits
      (.stop (Parser.stops_nil 0))
    rw [List.append_nil, whole] at reads
    rw [whole] at tokenized
    exact ⟨token :: rest, tokenized, Parser.parse_eq_ok_iff.mpr reads⟩

end Grammar

/-! ### The shape of the source -/

variable {grammar : Grammar} {source : String} {dropSigil : Bool} {log : Log} {tree : Expr}

theorem Arithmetic.build_of_ne_empty (nonempty : source ≠ "") :
    Arithmetic.build grammar source dropSigil = grammar.build source dropSigil := by
  have notEmpty : source.isEmpty = false := by
    rw [← Bool.not_eq_true, String.isEmpty_iff]
    exact nonempty
  rw [Arithmetic.build, if_neg (by simp [notEmpty])]

theorem Arithmetic.build_empty (grammar : Grammar) (dropSigil : Bool) :
    Arithmetic.build grammar "" dropSigil = throw (.structural .empty) := by
  rfl

theorem Arithmetic.build_eq_ok_iff : ((Arithmetic.build grammar source dropSigil).run log).1 = .ok tree ↔
    source ≠ "" ∧ ((grammar.build source dropSigil).run log).1 = .ok tree := by
  by_cases empty : source = ""
  · subst empty
    rw [Arithmetic.build_empty, (Emits.throw _).value_eq]
    simp
  · rw [Arithmetic.build_of_ne_empty empty, and_iff_right empty]

theorem Boolean.build_parenthesized (inner : String) :
    Boolean.build grammar ("(" ++ inner ++ ")") dropSigil = grammar.build ("(" ++ inner ++ ")") dropSigil := by
  have bytes : Utf8.encode ("(" ++ inner ++ ")") = '('.toUInt8 :: (Utf8.encode inner ++ [')'.toUInt8]) := by
    rw [Utf8.encode_append, Utf8.encode_append]
    rfl
  have closed : ('('.toUInt8 :: (Utf8.encode inner ++ [')'.toUInt8])).getLast? = some ')'.toUInt8 := by
    rw [List.getLast?_cons, List.getLast?_concat]
    rfl
  rw [Boolean.build, bytes]
  dsimp only
  rw [if_neg (by simp), if_neg (by simp), if_neg (by simp [closed])]

theorem Boolean.shape_of_build (built : ((Boolean.build grammar source dropSigil).run log).1 = .ok tree) :
    source.toList.head? = some '(' ∧ source.toList.getLast? = some ')' ∧
      ((grammar.build source dropSigil).run log).1 = .ok tree := by
  rw [Boolean.build] at built
  dsimp only at built
  split at built
  · cases built
  split at built
  · cases built
  split at built
  · cases built
  rename_i opened closed
  rw [Decidable.not_not] at opened closed
  refine ⟨?_, Utf8.getLast?_of_getLast?_encode (by decide) closed, built⟩
  rw [Utf8.head?_encode, Option.map_eq_some_iff] at opened
  obtain ⟨c, first, same⟩ := opened
  have paren : c = '(' := Utf8.eq_of_firstByte_eq (by decide) same
  rw [first, paren]

theorem Boolean.build_eq_ok (built : ((Boolean.build grammar source dropSigil).run log).1 = .ok tree) :
    source.toList.head? = some '(' ∧ ((grammar.build source dropSigil).run log).1 = .ok tree := by
  obtain ⟨opened, -, built⟩ := shape_of_build built
  exact ⟨opened, built⟩

/-- A boolean formula is built as it is, but only in parentheses. -/
theorem Boolean.exists_interior_of_build
    (built : ((Boolean.build grammar source dropSigil).run log).1 = .ok tree) :
    ∃ interior, source = "(" ++ interior ++ ")" := by
  obtain ⟨opened, closed, -⟩ := shape_of_build built
  obtain ⟨more, front⟩ := List.head?_eq_some_iff.mp opened
  obtain ⟨middle, back⟩ := List.getLast?_eq_some_iff.mp closed
  cases middle with
  | nil => cases front.symm.trans back
  | cons first middle =>
    obtain rfl : '(' = first := (List.cons.inj (front.symm.trans back)).1
    refine ⟨String.ofList middle, ?_⟩
    rw [← String.toList_inj, back]
    simp

/-- A language refuses the shape of a source, or leaves all of it to its grammar. -/
theorem Language.build_cases (language : Language) (source : String) (dropSigil : Bool) :
    (∃ e, language.build source dropSigil = throw (.structural e)) ∨
      language.build source dropSigil = language.grammar.build source dropSigil := by
  cases language with
  | arithmetic grammar =>
    by_cases empty : source = ""
    · subst empty
      exact .inl ⟨_, Arithmetic.build_empty grammar dropSigil⟩
    · exact .inr (Arithmetic.build_of_ne_empty empty)
  | boolean grammar =>
    show (∃ e, Boolean.build grammar source dropSigil = _) ∨ Boolean.build grammar source dropSigil = _
    unfold Boolean.build
    dsimp only
    split
    · exact .inl ⟨_, rfl⟩
    split
    · exact .inl ⟨_, rfl⟩
    split
    · exact .inl ⟨_, rfl⟩
    exact .inr rfl
  | bare grammar => exact .inr rfl

theorem Language.exists_emits_build (language : Language) (source : String) (dropSigil : Bool) :
    ∃ result events, Emits (language.build source dropSigil).run result events := by
  rcases language.build_cases source dropSigil with ⟨e, refused⟩ | same
  · rw [refused]
    exact ⟨_, _, .throw _⟩
  · rw [same]
    exact language.grammar.exists_emits_build source dropSigil

end Formula
