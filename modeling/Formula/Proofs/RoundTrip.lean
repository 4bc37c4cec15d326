import Formula.Proofs.Build
import Formula.Proofs.Expr.Display
import Formula.Proofs.Token.Layout

/-!
# Reading back what was written

A tree whose leaves are lexemes and whose operators a grammar knows is read back from its text. The two
directions meet in derivations: the text of such a tree falls into chunks whose tokens have a derivation of
it (`exists_spells`), and when the tokens of a derivation are lexemes, its tree is such a tree
(`writable_of_derivation`). Only a variable alone may fail to be read, since no bare sigil may end a source
and a boolean formula has to stand in parentheses.
-/

namespace Formula

/-- The same leaves and lexemes with other operators. -/
def Grammar.withPrecedence (grammar : Grammar) (table : PrecedenceTable) : Grammar where
  precedence := table
  isLeaf := grammar.isLeaf
  lexing := grammar.lexing

namespace Dialect

open Ascii (isBlankChar isNameChar)
open Chunk (sources tokens Divided)

/-- The leaves of a tree are lexemes, and its operators are both lexemes and listed by the table. -/
def Writable (d : Dialect) (table : PrecedenceTable) : Expr → Prop
  | .op key left right =>
    key ∈ d.infixes ∧ table.contains key = true ∧ Writable d table left ∧ Writable d table right
  | .var key => d.Lexeme .var key
  | .int key => d.Lexeme .int key

/-- The grammar reads the dialect's lexemes, and takes all but the operators for leaves. -/
structure Serves (d : Dialect) (grammar : Grammar) : Prop where
  lexing_eq : grammar.lexing = d.lexing
  accepts : ∀ kind text, d.Lexeme kind text → kind ≠ .op → grammar.isLeaf kind = true

variable {d : Dialect} {grammar : Grammar} {source : String}

/-! ### What is built can be written -/

theorem lexeme_of_mem_tokens {chunks : List (Chunk d)} {offset : Nat} {token : Token}
    (member : token ∈ tokens false offset chunks) : d.Lexeme token.kind token.text := by
  induction chunks generalizing offset with
  | nil => cases member
  | cons chunk rest ih =>
    rcases List.mem_cons.mp member with rfl | member
    · rw [Chunk.token, Chunk.shown_false]
      exact chunk.lexeme
    · exact ih member

theorem writable_of_derivation (unlisted : grammar.precedence.get? ")" = none)
    (derivation : Derivation (grammar.parser source))
    (lexemes : ∀ token ∈ derivation.tokens, d.Lexeme token.kind token.text) :
    d.Writable grammar.precedence derivation.tree := by
  induction derivation with
  | leaf token tree accepted same =>
    have lexeme := lexemes token (List.mem_singleton_self token)
    obtain ⟨text, kind, offset⟩ := token
    cases kind with
    | op => cases same
    | var =>
      cases same
      exact lexeme
    | int =>
      cases same
      exact lexeme
  | group opening closing opens closes inner ih =>
    refine ih fun token member => lexemes token ?_
    exact List.mem_cons_of_mem opening (List.mem_append_left [closing] member)
  | join operator precedence kind listed left right ihLeft ihRight =>
    have lexeme : d.Lexeme .op operator.text := kind ▸ lexemes operator (by simp [Derivation.tokens])
    refine ⟨?_, ?_, ihLeft fun token member => lexemes token ?_,
      ihRight fun token member => lexemes token ?_⟩
    · cases lexeme with
      | op member =>
        -- The one operator of the dialect that joins nothing is the one that the table leaves out.
        rcases List.mem_cons.mp member with closes | member
        · rw [closes] at listed
          cases unlisted.symm.trans listed
        · exact member
    · exact Option.isSome_of_eq_some listed
    · exact List.mem_append_left _ member
    · exact List.mem_append_right _ (List.mem_cons_of_mem operator member)

theorem writable_of_build (serves : d.Serves grammar) (unlisted : grammar.precedence.get? ")" = none)
    {tree : Expr} {log : Log} (built : ((grammar.build source false).run log).1 = .ok tree) :
    d.Writable grammar.precedence tree := by
  obtain ⟨derivation, -, tokenized, rfl⟩ := (Grammar.build_eq_ok_iff unlisted).mp built
  rw [serves.lexing_eq] at tokenized
  obtain ⟨layout, -, -, same⟩ := exists_layout_of_tokenize tokenized
  refine writable_of_derivation unlisted derivation fun token member => ?_
  rw [← same] at member
  exact lexeme_of_mem_tokens member

/-! ### What is written is built -/

/-- Some chunks and a derivation of their tokens that spell a tree as a text. -/
structure Spells (chunks : List (Chunk d)) (offset : Nat) (derivation : Derivation (grammar.parser source))
    (text : String) (tree : Expr) : Prop where
  sources_eq : sources chunks = text
  tokens_eq : derivation.tokens = tokens false offset chunks
  tree_eq : derivation.tree = tree
  respects : derivation.Respects
  divided : ∀ c, isNameChar c = false → Divided chunks (some c)

theorem exists_spells_leaf (serves : d.Serves grammar) {kind : Kind} {text : String} {tree : Expr}
    (lexeme : d.Lexeme kind text) (leaf : Expr.leaf? kind text = some tree) {gap : String}
    (blank : ∀ c ∈ gap.toList, isBlankChar c = true) (offset : Nat) :
    ∃ (chunks : List (Chunk d)) (derivation : Derivation (grammar.parser source)),
      Spells chunks offset derivation (gap ++ text) tree ∧ derivation.outermost? = none ∧
        (tree ≠ .var "$" → Divided chunks none) := by
  have notOp : kind ≠ .op := by
    rintro rfl
    cases leaf
  have accepted := serves.accepts kind text lexeme notOp
  let chunk : Chunk d := ⟨gap, kind, text, blank, lexeme⟩
  refine ⟨[chunk], .leaf ⟨text, kind, offset + gap.utf8ByteSize⟩ tree accepted leaf, ?_, rfl,
    fun whole => ⟨?_, trivial⟩⟩
  · exact
      { sources_eq := String.append_empty
        tokens_eq := by
          rw [tokens, tokens, Chunk.token, Chunk.shown_false]
          rfl
        tree_eq := rfl
        respects := trivial
        divided := fun c stops => ⟨fits_of_not_isNameChar chunk stops, trivial⟩ }
  · cases kind with
    | op => trivial
    | var =>
      cases leaf
      refine ⟨?_, fun bare => (whole (congrArg Expr.var bare)).elim⟩
      intro c next
      cases next
    | int =>
      intro c next
      cases next

theorem blank_empty : ∀ c ∈ ("" : String).toList, isBlankChar c = true := nofun

def spaced (key : String) (listed : key ∈ d.operators) : Chunk d := ⟨" ", .op, key, by decide, .op listed⟩

def opening (gap : String) (blank : ∀ c ∈ gap.toList, isBlankChar c = true) : Chunk d :=
  ⟨gap, .op, "(", blank, .op (List.mem_cons_of_mem _ (by cases d <;> exact List.mem_cons_self))⟩

def closing : Chunk d := ⟨"", .op, ")", nofun, .op List.mem_cons_self⟩

section Joining

variable {first second : List (Chunk d)} {left right : Derivation (grammar.parser source)}
  {leftTree rightTree : Expr} {before behind key : String} {offset : Nat} {precedence : UInt16}

/-- Operands without an outermost operator are joined whatever the precedences are. -/
theorem Spells.join (known : key ∈ d.operators) (listed : grammar.precedence.get? key = some precedence)
    (spellsLeft : Spells first offset left before leftTree)
    (spellsRight :
      Spells second (offset + before.utf8ByteSize + (" " ++ key).utf8ByteSize) right behind rightTree)
    (closedLeft : left.outermost? = none) (closedRight : right.outermost? = none) :
    Spells (first ++ spaced key known :: second) offset
      (.join ⟨key, .op, offset + before.utf8ByteSize + (" " : String).utf8ByteSize⟩ precedence rfl listed
        left right)
      (before ++ (" " ++ key ++ behind)) (.op key leftTree rightTree) where
  sources_eq := by
    rw [Chunk.sources_append, sources, spellsLeft.sources_eq, spellsRight.sources_eq]
    rfl
  tokens_eq := by
    rw [Chunk.tokens_append, tokens, spellsLeft.sources_eq, ← spellsLeft.tokens_eq]
    exact congrArg (fun more => left.tokens ++ _ :: more) spellsRight.tokens_eq
  tree_eq := by
    rw [← spellsLeft.tree_eq, ← spellsRight.tree_eq]
    rfl
  respects := by
    refine ⟨spellsLeft.respects, spellsRight.respects, ?_, ?_⟩
    · rw [closedLeft]
      intro outermost none
      cases none
    · rw [closedRight]
      intro outermost none
      cases none
  divided c stops := by
    have ahead : (sources (spaced key known :: second)).toList.head? = some ' ' := by
      show (" " ++ key ++ sources second).toList.head? = some ' '
      rw [String.append_assoc, String.toList_append]
      rfl
    rw [Chunk.divided_append, ahead]
    exact ⟨spellsLeft.divided ' ' (by decide), trivial, spellsRight.divided c stops⟩

end Joining

section Grouping

variable {chunks : List (Chunk d)} {inner : Derivation (grammar.parser source)} {tree : Expr}
  {text gap : String} {offset : Nat}

theorem Spells.divided_group (spells : Spells chunks offset inner text tree)
    (blank : ∀ c ∈ gap.toList, isBlankChar c = true) (next? : Option Char) :
    Divided (opening gap blank :: (chunks ++ [closing])) next? := by
  have close : (sources ([closing] : List (Chunk d))).toList.head? = some ')' := by
    show ("" ++ ")" ++ "" : String).toList.head? = some ')'
    rw [String.append_empty, String.empty_append]
    rfl
  refine ⟨trivial, Chunk.divided_append.mpr ⟨?_, trivial, trivial⟩⟩
  rw [close]
  exact spells.divided ')' (by decide)

theorem Spells.group (blank : ∀ c ∈ gap.toList, isBlankChar c = true)
    (spells : Spells chunks (offset + (gap ++ "(").utf8ByteSize) inner text tree) :
    Spells (opening gap blank :: (chunks ++ [closing])) offset
      (.group ⟨"(", .op, offset + gap.utf8ByteSize⟩
        ⟨")", .op, offset + (gap ++ "(").utf8ByteSize + text.utf8ByteSize⟩ rfl rfl inner)
      (gap ++ "(" ++ (text ++ ")")) tree where
  sources_eq := by
    rw [sources, Chunk.sources_append, spells.sources_eq]
    rfl
  tokens_eq := by
    rw [tokens, Chunk.tokens_append, spells.sources_eq]
    exact congrArg (fun more => _ :: (more ++ _)) spells.tokens_eq
  tree_eq := spells.tree_eq
  respects := spells.respects
  divided c _ := spells.divided_group blank (some c)

end Grouping

/-- The text of a tree behind a gap, wherever it stands in a source. -/
theorem exists_spells (serves : d.Serves grammar) (source : String) {tree : Expr}
    (writable : d.Writable grammar.precedence tree) :
    ∀ {gap : String}, (∀ c ∈ gap.toList, isBlankChar c = true) → ∀ offset,
      ∃ (chunks : List (Chunk d)) (derivation : Derivation (grammar.parser source)),
        Spells chunks offset derivation (gap ++ tree.spell .input) tree ∧ derivation.outermost? = none ∧
          (tree ≠ .var "$" → Divided chunks none) := by
  induction tree with
  | op key left right ihLeft ihRight =>
    intro gap blank offset
    obtain ⟨infixes, listed, writableLeft, writableRight⟩ := writable
    obtain ⟨precedence, listed⟩ := Option.isSome_iff_exists.mp listed
    have known : key ∈ d.operators := List.mem_cons_of_mem _ infixes
    have space : ∀ c ∈ (" " : String).toList, isBlankChar c = true := by decide
    obtain ⟨first, leftSide, spellsLeft, closedLeft, -⟩ :=
      ihLeft writableLeft blank_empty (offset + (gap ++ "(").utf8ByteSize)
    obtain ⟨second, rightSide, spellsRight, closedRight, -⟩ := ihRight writableRight space _
    -- The parentheses around it keep the operator from being outermost in its turn.
    have joined := Spells.join known listed spellsLeft spellsRight closedLeft closedRight
    have grouped := joined.group blank
    have text : gap ++ "(" ++ ("" ++ left.spell .input ++ (" " ++ key ++ (" " ++ right.spell .input)) ++ ")") =
        gap ++ (Expr.op key left right).spell .input := by
      simp only [Expr.spell, String.append_assoc, String.empty_append]
    rw [text] at grouped
    exact ⟨_, _, grouped, rfl, fun _ => joined.divided_group blank Option.none⟩
  | var key => exact fun blank offset => exists_spells_leaf serves writable rfl blank offset
  | int key => exact fun blank offset => exists_spells_leaf serves writable rfl blank offset

theorem Spells.build {chunks : List (Chunk d)} {tree : Expr} {derivation : Derivation (grammar.parser source)}
    (spells : Spells chunks 0 derivation source tree) (serves : d.Serves grammar)
    (unlisted : grammar.precedence.get? ")" = none) (divided : Divided chunks none) (log : Log) :
    ((grammar.build source false).run log).1 = .ok tree := by
  refine (Grammar.build_eq_ok_iff unlisted).mpr ⟨derivation, spells.respects, ?_, spells.tree_eq⟩
  have read := tokenize_of_blank divided blank_empty false log
  rw [String.append_empty, spells.sources_eq] at read
  rw [serves.lexing_eq, spells.tokens_eq]
  exact read

theorem build_spell (serves : d.Serves grammar) (unlisted : grammar.precedence.get? ")" = none) {tree : Expr}
    (writable : d.Writable grammar.precedence tree) (whole : tree ≠ .var "$") (log : Log) :
    ((grammar.build (tree.spell .input) false).run log).1 = .ok tree := by
  obtain ⟨_, _, spells, -, divided⟩ := exists_spells serves (tree.spell .input) writable blank_empty 0
  rw [String.empty_append] at spells
  exact spells.build serves unlisted (divided whole) log

theorem build_grouped_spell (serves : d.Serves grammar) (unlisted : grammar.precedence.get? ")" = none)
    {tree : Expr} (writable : d.Writable grammar.precedence tree) (log : Log) :
    ((grammar.build ("(" ++ tree.spell .input ++ ")") false).run log).1 = .ok tree := by
  have text : "" ++ "(" ++ ("" ++ tree.spell .input ++ ")") = "(" ++ tree.spell .input ++ ")" := by
    simp only [String.append_assoc, String.empty_append]
  obtain ⟨_, _, spells, -⟩ :=
    exists_spells serves ("(" ++ tree.spell .input ++ ")") writable blank_empty (0 + ("" ++ "(").utf8ByteSize)
  have grouped := spells.group blank_empty
  rw [text] at grouped
  exact grouped.build serves unlisted (spells.divided_group blank_empty none) log

theorem serves_arithmetic (table : PrecedenceTable) :
    arithmetic.Serves (Arithmetic.grammar.withPrecedence table) where
  lexing_eq := rfl
  accepts kind text lexeme notOp := by
    cases kind with
    | op => exact (notOp rfl).elim
    | var => rfl
    | int => rfl

theorem serves_logical (table : PrecedenceTable) : logical.Serves (Boolean.grammar.withPrecedence table) where
  lexing_eq := rfl
  accepts kind text lexeme notOp := by
    cases lexeme with
    | op => exact (notOp rfl).elim
    | var => rfl
    | int known => cases known

theorem build_sigil (serves : d.Serves grammar) (log : Log) :
    ((grammar.build (Expr.var "$").infixText false).run log).1 = .error (.lexical ⟨'$', 0, "$"⟩) := by
  have divided : Divided ([] : List (Chunk d)) ("" ++ "$").toList.head? := trivial
  obtain ⟨_, _, lexes⟩ := exists_lexes_source_of_fault divided blank_empty .dangling false
  rw [sources, String.empty_append, String.empty_append, ← serves.lexing_eq] at lexes
  rw [Expr.infixText_eq_spell]
  exact (Grammar.emits_build_lexical (Lexing.emits_tokenize lexes)).value_eq log

theorem exists_head?_spell {table : PrecedenceTable} {tree : Expr} (writable : d.Writable table tree) :
    ∃ c, (tree.spell .input).toList.head? = some c ∧ (c = '(' ↔ tree.kind = .op) := by
  cases tree with
  | op key left right =>
    refine ⟨'(', ?_, iff_of_true rfl rfl⟩
    simp only [Expr.spell, String.append_assoc, String.toList_append]
    rfl
  | var key =>
    cases writable with
    | var =>
      refine ⟨'$', head?_singleton_append '$' _, iff_of_false (by decide) ?_⟩
      intro op
      cases op
  | int key =>
    obtain ⟨c, first, digit, -⟩ := exists_first_of_lexeme writable
    refine ⟨c, first, iff_of_false ?_ ?_⟩
    · rintro rfl
      cases digit
    · intro op
      cases op

end Dialect

/-! ### The two languages -/

section Texts

variable {table : PrecedenceTable} (unlisted : table.get? ")" = none) {tree : Expr}
include unlisted

theorem Arithmetic.build_spell (writable : Dialect.arithmetic.Writable table tree) (whole : tree ≠ .var "$")
    (log : Log) : ((build (grammar.withPrecedence table) (tree.spell .input) false).run log).1 = .ok tree := by
  have built := Dialect.build_spell (Dialect.serves_arithmetic table) unlisted writable whole log
  obtain ⟨c, first, -⟩ := Dialect.exists_head?_spell writable
  refine build_eq_ok_iff.mpr ⟨?_, built⟩
  intro empty
  rw [empty] at first
  cases first

theorem Boolean.build_spell (writable : Dialect.logical.Writable table tree) (isOp : tree.kind = .op)
    (log : Log) : ((build (grammar.withPrecedence table) (tree.spell .input) false).run log).1 = .ok tree := by
  cases tree with
  | op key left right =>
    have built := Dialect.build_spell (Dialect.serves_logical table) unlisted writable Expr.noConfusion log
    have text : (Expr.op key left right).spell .input =
        "(" ++ (left.spell .input ++ " " ++ key ++ " " ++ right.spell .input) ++ ")" := by
      simp only [Expr.spell, String.append_assoc]
    rw [text, build_parenthesized, ← text]
    exact built
  | var key => cases isOp
  | int key => cases isOp

end Texts

/-- Arithmetic formulas are read back from their text, all but the bare sigil. Whatever is read is of the kind
that can be written. -/
theorem Arithmetic.build_infixText_iff_ne_sigil (table : PrecedenceTable) (unlisted : table.get? ")" = none) :
    (∀ source tree log,
      ((build (grammar.withPrecedence table) source false).run log).1 = .ok tree →
        Dialect.arithmetic.Writable table tree) ∧
    ∀ tree, Dialect.arithmetic.Writable table tree → ∀ log,
      (((build (grammar.withPrecedence table) tree.infixText false).run log).1 = .ok tree ↔
        tree ≠ .var "$") ∧
      (tree = .var "$" →
        ((build (grammar.withPrecedence table) tree.infixText false).run log).1 =
          .error (.lexical ⟨'$', 0, "$"⟩)) := by
  have serves := Dialect.serves_arithmetic table
  refine ⟨fun source tree log built => ?_, fun tree writable log => ⟨⟨?_, ?_⟩, ?_⟩⟩
  · exact Dialect.writable_of_build serves unlisted (build_eq_ok_iff.mp built).2
  · rintro built rfl
    cases (Dialect.build_sigil serves log).symm.trans (build_eq_ok_iff.mp built).2
  · intro whole
    rw [Expr.infixText_eq_spell]
    exact build_spell unlisted writable whole log
  · rintro rfl
    rw [build_of_ne_empty ?_]
    · exact Dialect.build_sigil serves log
    · rw [Expr.infixText_eq_spell]
      decide

/-- A parenthesis that joins operands: the text is `($ ( (1 + $x))`. -/
theorem Arithmetic.build_parenthesis_as_operator :
    (PrecedenceTable.ofList [("(", 5), ("+", 20)]).get? ")" = none ∧
    Dialect.arithmetic.Writable (.ofList [("(", 5), ("+", 20)])
      (.op "(" (.var "$") (.op "+" (.int "1") (.var "$x"))) ∧
    ((build (grammar.withPrecedence (.ofList [("(", 5), ("+", 20)]))
      (Expr.op "(" (.var "$") (.op "+" (.int "1") (.var "$x"))).infixText false).run {}).1 =
        .ok (.op "(" (.var "$") (.op "+" (.int "1") (.var "$x"))) := by
  have unlisted : (PrecedenceTable.ofList [("(", 5), ("+", 20)]).get? ")" = none := by decide
  have writable : Dialect.arithmetic.Writable (.ofList [("(", 5), ("+", 20)])
      (.op "(" (.var "$") (.op "+" (.int "1") (.var "$x"))) := by
    refine ⟨by decide, by decide, ?_, by decide, by decide, .int rfl (by decide) (by decide), ?_⟩
    · have bare : ∀ c ∈ ("" : String).toList, Ascii.isNameChar c = true := nofun
      exact .var bare
    · have name : ∀ c ∈ ("x" : String).toList, Ascii.isNameChar c = true := by decide
      exact .var name
  have written := (build_infixText_iff_ne_sigil _ unlisted).2 _ writable {}
  exact ⟨unlisted, writable, written.1.mpr nofun⟩

/-- Boolean formulas are read back from their text, and a variable alone once it stands in parentheses. Whatever
is read is of the kind that can be written. -/
theorem Boolean.build_infixText_iff_isOp (table : PrecedenceTable) (unlisted : table.get? ")" = none) :
    (∀ source tree log,
      ((build (grammar.withPrecedence table) source false).run log).1 = .ok tree →
        Dialect.logical.Writable table tree) ∧
    ∀ tree, Dialect.logical.Writable table tree → ∀ log,
      (((build (grammar.withPrecedence table) tree.infixText false).run log).1 = .ok tree ↔
        tree.kind = .op) ∧
      ((build (grammar.withPrecedence table) ("(" ++ tree.infixText ++ ")") false).run log).1 = .ok tree := by
  have serves := Dialect.serves_logical table
  refine ⟨fun source tree log built => ?_, fun tree writable log => ⟨⟨fun built => ?_, ?_⟩, ?_⟩⟩
  · exact Dialect.writable_of_build serves unlisted (build_eq_ok built).2
  · obtain ⟨c, first, opens⟩ := Dialect.exists_head?_spell writable
    obtain ⟨paren, -⟩ := build_eq_ok built
    rw [Expr.infixText_eq_spell, first] at paren
    exact opens.mp (Option.some.inj paren)
  · intro isOp
    rw [Expr.infixText_eq_spell]
    exact build_spell unlisted writable isOp log
  · rw [Expr.infixText_eq_spell, build_parenthesized]
    exact Dialect.build_grouped_spell serves unlisted writable log

/-- A variable without a name is refused alone and read in parentheses. -/
theorem Boolean.build_bare_sigil :
    PrecedenceTable.logical.get? ")" = none ∧ Dialect.logical.Writable .logical (.var "$") ∧
    ((build (grammar.withPrecedence .logical) (Expr.var "$").infixText false).run {}).1 ≠ .ok (.var "$") ∧
    ((build (grammar.withPrecedence .logical) ("(" ++ (Expr.var "$").infixText ++ ")") false).run {}).1 =
      .ok (.var "$") := by
  have unlisted : PrecedenceTable.logical.get? ")" = none := by decide
  have writable : Dialect.logical.Writable .logical (.var "$") := by
    have bare : ∀ c ∈ ("" : String).toList, Ascii.isNameChar c = true := nofun
    exact .var bare
  have written := (build_infixText_iff_isOp .logical unlisted).2 (.var "$") writable {}
  refine ⟨unlisted, writable, fun built => ?_, written.2⟩
  cases written.1.mp built

end Formula
