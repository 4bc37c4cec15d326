import Formula.Proofs.Parser.Variables
import Formula.Proofs.RoundTrip

/-!
# Dropping the sigil

Whether the sigils of variables are kept or dropped is seen in the names of variables and nowhere else. The two
built-in lexings read the same tokens up to the names (`tokenize_unsigiled`), and the parser never looks at a
name, so both ways a source ends in the same error at the same place or in the same tree (`build_unsigiled`).
-/

namespace Formula

/-- The name of a variable, without the sigil that its text starts with. -/
def withoutSigil (text : String) : String := String.ofList (text.toList.drop 1)

theorem withoutSigil_append (name : String) : withoutSigil ("$" ++ name) = name := by
  rw [withoutSigil, String.toList_append]
  exact String.ofList_toList

namespace Dialect

open Ascii (isBlankChar)
open Chunk (sources tokens Divided)

variable {d : Dialect}

theorem tokens_true (offset : Nat) (chunks : List (Chunk d)) :
    tokens true offset chunks = (tokens false offset chunks).map (Token.rename withoutSigil) := by
  induction chunks generalizing offset with
  | nil => rfl
  | cons chunk rest ih =>
    have same : chunk.token true offset = (chunk.token false offset).rename withoutSigil := by
      obtain ⟨gap, kind, text, blank, lexeme⟩ := chunk
      cases kind <;> rfl
    rw [tokens, tokens, List.map_cons, ih, same]

theorem exists_name_of_mem_tokens {offset : Nat} {chunks : List (Chunk d)} {token : Token}
    (member : token ∈ tokens false offset chunks) (var : token.kind = .var) :
    ∃ name, token.text = "$" ++ name := by
  have lexeme := lexeme_of_mem_tokens member
  obtain ⟨text, kind, offset⟩ := token
  cases var
  cases lexeme with
  | @var name _ => exact ⟨name, rfl⟩

/-- A source is read both ways as the same tokens up to the names of variables, or fails both ways in the same
place at the same character. -/
theorem tokenize_unsigiled (d : Dialect) (source : String) (log log' : Log) :
    (∃ e, ((d.lexing.tokenize false source).run log).1 = .error e ∧
      ((d.lexing.tokenize true source).run log').1 = .error e) ∨
    ∃ read, ((d.lexing.tokenize false source).run log).1 = .ok read ∧
      ((d.lexing.tokenize true source).run log').1 = .ok (read.map (Token.rename withoutSigil)) ∧
      ∀ token ∈ read, token.kind = .var → ∃ name, token.text = "$" ++ name := by
  obtain ⟨chunks, tail, rfl, divided, blank | ⟨gap, behind, c, rfl, blank, fault⟩⟩ := exists_chunks d source
  · have dropped := tokenize_of_blank divided blank true log'
    rw [tokens_true] at dropped
    exact .inr ⟨_, tokenize_of_blank divided blank false log, dropped, fun token => exists_name_of_mem_tokens⟩
  · exact .inl ⟨_, tokenize_of_fault divided blank fault false log,
      tokenize_of_fault divided blank fault true log'⟩

/-! ### Building both ways -/

/-- How building from `tokens` ends with the sigils kept and with the sigils dropped. -/
inductive Unsigiled (tokens : List Token) : Except BuildError Expr → Except BuildError Expr → Prop where
  | grammatical {e e' : SyntaxError} (renamed : e.Renamed withoutSigil tokens e') :
      Unsigiled tokens (.error (.grammatical e)) (.error (.grammatical e'))
  | tree {tree : Expr} (names : ∀ key ∈ tree.keys .var, ∃ name, key = "$" ++ name) :
      Unsigiled tokens (.ok tree) (.ok (tree.rename withoutSigil))

theorem unsigiled_of_renamed {tokens : List Token} {result result' : Except SyntaxError Expr}
    (renamed : Renamed withoutSigil tokens (Expr.rename withoutSigil) result result')
    (names : ∀ tree, result = .ok tree → ∀ key ∈ tree.keys .var, ∃ name, key = "$" ++ name) :
    Unsigiled tokens (result.mapError .grammatical) (result'.mapError .grammatical) := by
  cases renamed with
  | ok tree => exact .tree (names tree rfl)
  | error renamed => exact .grammatical renamed

/-- Keeping the sigils and dropping them come to the same, but for the names of variables. -/
theorem build_unsigiled (d : Dialect) (precedence : PrecedenceTable) (isLeaf : Kind → Bool) (source : String)
    (log log' : Log) :
    (∃ e, (((Grammar.mk precedence isLeaf d.lexing).build source false).run log).1 = .error (.lexical e) ∧
      (((Grammar.mk precedence isLeaf d.lexing).build source true).run log').1 = .error (.lexical e)) ∨
    ∃ read, ((d.lexing.tokenize false source).run log).1 = .ok read ∧
      (∀ token ∈ read, token.kind = .var → ∃ name, token.text = "$" ++ name) ∧
      Unsigiled read (((Grammar.mk precedence isLeaf d.lexing).build source false).run log).1
        (((Grammar.mk precedence isLeaf d.lexing).build source true).run log').1 := by
  rw [Grammar.value_build, Grammar.value_build]
  dsimp only
  rcases tokenize_unsigiled d source log log' with ⟨e, kept, dropped⟩ | ⟨read, kept, dropped, names⟩
  · rw [kept, dropped]
    exact .inl ⟨e, rfl, rfl⟩
  · refine .inr ⟨read, kept, names, ?_⟩
    rw [kept, dropped]
    refine unsigiled_of_renamed (Parser.renamed_parse _ withoutSigil read log log') ?_
    -- The names in a tree are those of its tokens.
    intro tree parsed key member
    have order : tree.keys .var = Token.texts .var read := Parser.keys_of_parse (by decide) parsed
    rw [order, Token.mem_texts_iff] at member
    obtain ⟨token, member, var, rfl⟩ := member
    exact names token member var

theorem exists_build_keeping {grammar : Grammar} (reads : grammar.lexing = d.lexing) {source : String}
    {log : Log} {tree : Expr} (built : ((grammar.build source true).run log).1 = .ok tree) :
    ∃ kept, ((grammar.build source false).run log).1 = .ok kept ∧ tree = kept.rename withoutSigil := by
  obtain ⟨tokens, tokenized, parsed⟩ := Grammar.build_eq_ok_iff_parse.mp built
  rw [reads] at tokenized
  rcases tokenize_unsigiled d source log log with ⟨e, -, failed⟩ | ⟨read, kept, dropped, -⟩
  · cases failed.symm.trans tokenized
  · cases dropped.symm.trans tokenized
    have renamed := (grammar.parser source).renamed_parse withoutSigil read log log
    rw [parsed] at renamed
    generalize same : (((grammar.parser source).parse read).run log).1 = result at renamed
    cases renamed with
    | ok tree =>
      rw [← reads] at kept
      exact ⟨tree, Grammar.build_eq_ok_iff_parse.mpr ⟨read, kept, same⟩, rfl⟩

end Dialect

end Formula
