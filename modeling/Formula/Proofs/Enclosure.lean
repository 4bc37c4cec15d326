import Formula.Proofs.Parser.Parentheses
import Formula.Proofs.RoundTrip
import Formula.Proofs.Token.Failure

/-!
# Formulas in parentheses

A boolean formula has to start and end with a parenthesis, which does not say that these two close each
other. What stands between them is a formula of its own, and the same one, just when they do and no bare
sigil comes to stand at the end (`Boolean.build_interior_iff`). Two groups side by side are built as well,
and what is between their outer parentheses is no formula (`Boolean.build_without_interior`). The other way
round nothing is asked for: every text that is built is built in parentheses too
(`Dialect.build_parenthesized_of_build`).
-/

namespace Formula

/-- The parentheses of a text, as steps up and down. -/
def parenthesisSteps (text : String) : List DyckStep :=
  text.toList.filterMap fun c => if c = '(' then some .U else if c = ')' then some .D else none

/-- From the first parenthesis to the last one there is always one open, so these two close each other. -/
def Enclosed (source : String) : Prop :=
  ∀ i < (parenthesisSteps source).length, 0 < i →
    ((parenthesisSteps source).take i).count .D < ((parenthesisSteps source).take i).count .U

instance (source : String) : Decidable (Enclosed source) := Nat.decidableBallLT _ _

theorem enclosed_iff_isNested {source : String} {word : DyckWord} (steps : parenthesisSteps source = word.toList)
    (some : word ≠ 0) : Enclosed source ↔ word.IsNested := by
  rw [Enclosed, steps]
  constructor
  · intro enclosed
    exact ⟨some, fun i positive inside => enclosed i inside positive⟩
  · rintro ⟨-, nested⟩ i inside positive
    exact nested positive inside

theorem parenthesisSteps_append (first second : String) :
    parenthesisSteps (first ++ second) = parenthesisSteps first ++ parenthesisSteps second := by
  rw [parenthesisSteps, String.toList_append, List.filterMap_append]
  rfl

theorem parenthesisSteps_eq_nil {text : String} {holds : Char → Bool} (opening : holds '(' = false)
    (closing : holds ')' = false) (all : ∀ c ∈ text.toList, holds c = true) : parenthesisSteps text = [] := by
  rw [parenthesisSteps, List.filterMap_eq_nil_iff]
  intro c member
  have held := all c member
  have notOpening : c ≠ '(' := by
    rintro rfl
    cases opening.symm.trans held
  have notClosing : c ≠ ')' := by
    rintro rfl
    cases closing.symm.trans held
  rw [if_neg notOpening, if_neg notClosing]

namespace Dialect

open Ascii (isBlankChar isNameChar)
open Chunk (sources tokens Divided)

variable {d : Dialect} {dropSigil : Bool}

/-! ### The parentheses of chunks -/

theorem parenthesisSteps_source (chunk : Chunk d) (offset : Nat) :
    parenthesisSteps chunk.source = (chunk.token dropSigil offset).step?.toList := by
  obtain ⟨gap, kind, text, blank, lexeme⟩ := chunk
  rw [Chunk.source, parenthesisSteps_append, parenthesisSteps_eq_nil rfl rfl blank, List.nil_append]
  cases lexeme with
  | op listed =>
    have same : ∀ text ∈ d.operators, parenthesisSteps text = (Token.mk text .op 0).step?.toList := by
      cases d with
      | arithmetic => decide
      | logical => decide
    exact same text listed
  | int known nonempty digits =>
    rw [Token.step?_of_kind (by decide : Kind.int ≠ .op)]
    exact parenthesisSteps_eq_nil rfl rfl digits
  | @var name letters =>
    rw [Token.step?_of_kind (by decide : Kind.var ≠ .op), parenthesisSteps_append,
      parenthesisSteps_eq_nil rfl rfl letters]
    rfl

theorem parenthesisSteps_sources (dropSigil : Bool) (chunks : List (Chunk d)) (offset : Nat) :
    parenthesisSteps (sources chunks) = (tokens dropSigil offset chunks).filterMap Token.step? := by
  induction chunks generalizing offset with
  | nil => rfl
  | cons chunk rest ih =>
    rw [sources, parenthesisSteps_append, parenthesisSteps_source chunk offset, ih, tokens]
    cases step : (chunk.token dropSigil offset).step? with
    | none =>
      rw [List.filterMap_cons_none step]
      rfl
    | some parenthesis =>
      rw [List.filterMap_cons_some step]
      rfl

theorem tokens_add (chunks : List (Chunk d)) (offset distance : Nat) :
    tokens dropSigil (offset + distance) chunks =
      (tokens dropSigil offset chunks).map (Token.shift (· + distance)) := by
  induction chunks generalizing offset with
  | nil => rfl
  | cons chunk rest ih =>
    have same : chunk.token dropSigil (offset + distance) =
        (chunk.token dropSigil offset).shift (· + distance) := by
      rw [Chunk.token, Chunk.token, Token.shift, Nat.add_right_comm]
    rw [tokens, tokens, List.map_cons, same, Nat.add_right_comm, ih]

/-! ### Chunks in parentheses -/

theorem lexeme_closing : Lexeme d .op ")" := .op List.mem_cons_self

def closingBehind (gap : String) (blank : ∀ c ∈ gap.toList, isBlankChar c = true) : Chunk d :=
  ⟨gap, .op, ")", blank, lexeme_closing⟩

section Parenthesized

variable {chunks : List (Chunk d)} {tail : String} (blank : ∀ c ∈ tail.toList, isBlankChar c = true)

/-- The chunks of a text in parentheses, with the blanks that the text ends in. -/
def parenthesized (chunks : List (Chunk d)) : List (Chunk d) :=
  opening "" blank_empty :: (chunks ++ [closingBehind tail blank])

theorem sources_closingBehind : sources [(closingBehind tail blank : Chunk d)] = tail ++ ")" :=
  String.append_empty

theorem sources_parenthesized (chunks : List (Chunk d)) :
    sources (parenthesized blank chunks) = "(" ++ (sources chunks ++ tail) ++ ")" := by
  rw [parenthesized, sources, Chunk.sources_append, sources_closingBehind, String.append_assoc,
    String.append_assoc]
  rfl

theorem exists_tokens_parenthesized (dropSigil : Bool) (chunks : List (Chunk d)) :
    ∃ closing : Token, closing.isOp ")" = true ∧ tokens dropSigil 0 (parenthesized blank chunks) =
      ⟨"(", .op, 0⟩ :: ((tokens dropSigil 0 chunks).map (Token.shift (· + 1)) ++ [closing]) := by
  refine ⟨(closingBehind tail blank : Chunk d).token dropSigil (0 + 1 + (sources chunks).utf8ByteSize), rfl, ?_⟩
  rw [← tokens_add, parenthesized, tokens, Chunk.tokens_append]
  rfl

theorem divided_parenthesized (divided : Divided chunks tail.toList.head?) :
    Divided (parenthesized blank chunks) none := by
  obtain ⟨c, first, stops⟩ :
      ∃ c, (sources [(closingBehind tail blank : Chunk d)]).toList.head? = some c ∧ isNameChar c = false := by
    rw [sources_closingBehind, String.toList_append, List.head?_append]
    cases head : tail.toList.head? with
    | none => exact ⟨')', rfl, rfl⟩
    | some c => exact ⟨c, rfl, Ascii.not_isNameChar_of_isBlankChar (blank c (List.mem_of_head? head))⟩
  refine ⟨trivial, Chunk.divided_append.mpr ⟨?_, trivial, trivial⟩⟩
  rw [first]
  exact divided.of_not_isNameChar stops

end Parenthesized

/-! ### The end of what stands in the parentheses -/

theorem eq_sigil_of_getLast? {kind : Kind} {text : String} (lexeme : d.Lexeme kind text)
    (last : text.toList.getLast? = some '$') : text = "$" := by
  cases lexeme with
  | op listed =>
    have other : ∀ text ∈ d.operators, text.toList.getLast? ≠ some '$' := by
      cases d with
      | arithmetic => decide
      | logical => decide
    exact (other text listed last).elim
  | int known nonempty digits => cases digits '$' (List.mem_of_getLast? last)
  | @var name letters =>
    rw [String.toList_append, List.getLast?_append] at last
    cases ends : name.toList.getLast? with
    | none => rw [String.toList_eq_nil_iff.mp (List.getLast?_eq_none_iff.mp ends), String.append_empty]
    | some c =>
      rw [ends] at last
      cases last
      cases letters '$' (List.mem_of_getLast? ends)

/-- What is read to its end ends in no bare sigil. -/
theorem getLast?_ne_sigil {chunks : List (Chunk d)} {tail : String} (divided : Divided chunks tail.toList.head?)
    (blank : ∀ c ∈ tail.toList, isBlankChar c = true) : (sources chunks ++ tail).toList.getLast? ≠ some '$' := by
  rw [String.toList_append, List.getLast?_append]
  cases ends : tail.toList.getLast? with
  | some c =>
    rintro ⟨⟩
    cases blank '$' (List.mem_of_getLast? ends)
  | none =>
    have empty : tail = "" := String.toList_eq_nil_iff.mp (List.getLast?_eq_none_iff.mp ends)
    have separated := (divided_iff_separated blank chunks).mp divided
    rcases chunks.eq_nil_or_concat' with rfl | ⟨front, last, rfl⟩
    · rintro ⟨⟩
    · rw [Chunk.sources_append, sources, sources, String.append_empty, Chunk.source, String.toList_append,
        String.toList_append, List.getLast?_append, List.getLast?_append]
      obtain ⟨c, first, -⟩ := exists_first_of_lexeme last.lexeme
      cases final : last.text.toList.getLast? with
      | none =>
        rw [List.getLast?_eq_none_iff.mp final] at first
        cases first
      | some c =>
        rintro ⟨⟩
        have sigil := eq_sigil_of_getLast? last.lexeme final
        exact separated.sigil last (List.getLast?_concat ..) sigil empty

/-- A parenthesis behind a fault leaves a fault, unless it is a sigil that ended the text. -/
theorem Fault.closing {behind : String} {c : Char} (fault : d.Fault behind c) :
    behind = "$" ∨ ∃ c, d.Fault (behind ++ ")") c := by
  cases fault with
  | unknown stops unread rest =>
    rw [String.append_assoc]
    exact .inr ⟨c, .unknown stops unread _⟩
  | dangling => exact .inl rfl
  | single member different rest =>
    rw [String.append_assoc, String.append_assoc]
    exact .inr ⟨c, .single member different _⟩
  | last member =>
    have other : ')' ≠ c := by
      rintro rfl
      cases d with
      | arithmetic => cases member
      | logical => revert member; decide
    exact .inr ⟨')', .single member other ""⟩

/-! ### What stands in the parentheses -/

section Interior

variable {grammar : Grammar} (reads : grammar.lexing = d.lexing) {chunks : List (Chunk d)} {tree : Expr} {log : Log}

section Blank

variable {tail : String} (divided : Divided chunks tail.toList.head?)
  (blank : ∀ c ∈ tail.toList, isBlankChar c = true)
include divided

theorem tokenize_parenthesized (dropSigil : Bool) (log : Log) :
    ((d.lexing.tokenize dropSigil ("(" ++ (sources chunks ++ tail) ++ ")")).run log).1 =
      .ok (tokens dropSigil 0 (parenthesized blank chunks)) := by
  have read := tokenize_of_blank (divided_parenthesized blank divided) blank_empty dropSigil log
  rwa [String.append_empty, sources_parenthesized] at read

variable (noClosing : grammar.precedence.get? ")" = none)
include reads blank noClosing

/-- The parentheses around a text make a group of the derivation of its tokens. -/
theorem exists_group_of_build (built : ((grammar.build (sources chunks ++ tail) dropSigil).run log).1 = .ok tree)
    (log' : Log) :
    ∃ group : Derivation (grammar.parser ("(" ++ (sources chunks ++ tail) ++ ")")), group.Respects ∧
      ((grammar.lexing.tokenize dropSigil ("(" ++ (sources chunks ++ tail) ++ ")")).run log').1 =
        .ok group.tokens ∧
      group.tree = tree ∧ group.word.IsNested := by
  obtain ⟨inner, respects, same, rfl⟩ := (Grammar.build_eq_ok_iff noClosing).mp built
  rw [reads, tokenize_of_blank divided blank] at same
  obtain ⟨closing, closes, whole⟩ := exists_tokens_parenthesized blank dropSigil chunks
  refine ⟨.group ⟨"(", .op, 0⟩ closing rfl closes (inner.shift (· + 1)), respects.shift _, ?_,
    inner.tree_shift _, DyckWord.IsNested.nest⟩
  rw [reads, tokenize_parenthesized divided blank, whole, Except.ok.inj same, ← Derivation.tokens_shift]
  rfl

theorem build_iff_of_blank (noOpening : grammar.precedence.get? "(" = none) :
    ((grammar.build (sources chunks ++ tail) dropSigil).run log).1 = .ok tree ↔
      ((grammar.build ("(" ++ (sources chunks ++ tail) ++ ")") dropSigil).run log).1 = .ok tree ∧
        Enclosed ("(" ++ (sources chunks ++ tail) ++ ")") := by
  have steps := parenthesisSteps_sources dropSigil (parenthesized blank chunks) 0
  rw [sources_parenthesized] at steps
  constructor
  · intro built
    obtain ⟨group, respects, same, rfl, nested⟩ :=
      exists_group_of_build reads divided blank noClosing built log
    refine ⟨(Grammar.build_eq_ok_iff noClosing).mpr ⟨group, respects, same, rfl⟩, ?_⟩
    rw [reads, tokenize_parenthesized divided blank] at same
    rw [Except.ok.inj same, Derivation.filterMap_step?_tokens noOpening noClosing] at steps
    exact (enclosed_iff_isNested steps nested.1).mpr nested
  · rintro ⟨built, enclosed⟩
    obtain ⟨derivation, respects, same, rfl⟩ := (Grammar.build_eq_ok_iff noClosing).mp built
    rw [reads, tokenize_parenthesized divided blank] at same
    obtain ⟨closing, closes, whole⟩ := exists_tokens_parenthesized blank dropSigil chunks
    have same := Except.ok.inj same
    rw [same, Derivation.filterMap_step?_tokens noOpening noClosing] at steps
    rw [same] at whole
    have some : derivation.word ≠ 0 :=
      Derivation.word_ne_zero_of_mem noOpening noClosing (whole ▸ List.mem_cons_self) rfl
    have nested := (enclosed_iff_isNested steps some).mp enclosed
    obtain ⟨inner, middle, tree_eq, inherits⟩ :=
      Derivation.exists_group_of_isNested noOpening noClosing nested rfl closes whole
    refine (Grammar.build_eq_ok_iff noClosing).mpr
      ⟨inner.shift (· - 1), (inherits respects).shift _, ?_, (inner.tree_shift _).trans tree_eq⟩
    have back : Token.shift (· - 1) ∘ Token.shift (· + 1) = id := rfl
    rw [reads, tokenize_of_blank divided blank, Derivation.tokens_shift, middle, List.map_map, back, List.map_id]

end Blank

include reads in
theorem not_built_of_fault {gap behind : String} {c : Char} (divided : Divided chunks (gap ++ behind).toList.head?)
    (blank : ∀ c ∈ gap.toList, isBlankChar c = true) (fault : d.Fault behind c) :
    ((grammar.build (sources chunks ++ (gap ++ behind)) dropSigil).run log).1 ≠ .ok tree := by
  rw [Grammar.value_build, reads, tokenize_of_fault divided blank fault]
  nofun

include reads in
/-- A text is built just when it is built in parentheses that close each other, and to the same tree. -/
theorem build_iff_enclosed (noOpening : grammar.precedence.get? "(" = none)
    (noClosing : grammar.precedence.get? ")" = none) (interior : String) :
    ((grammar.build interior dropSigil).run log).1 = .ok tree ↔
      ((grammar.build ("(" ++ interior ++ ")") dropSigil).run log).1 = .ok tree ∧
        Enclosed ("(" ++ interior ++ ")") ∧ interior.toList.getLast? ≠ some '$' := by
  obtain ⟨chunks, tail, rfl, divided, blank | ⟨gap, behind, c, rfl, blank, fault⟩⟩ := exists_chunks d interior
  · rw [build_iff_of_blank reads divided blank noClosing noOpening, ← and_assoc]
    exact (and_iff_left (getLast?_ne_sigil divided blank)).symm
  · refine iff_of_false (not_built_of_fault reads divided blank fault) ?_
    rintro ⟨built, -, noSigil⟩
    have nonempty := fault.ne_empty
    rcases fault.closing with rfl | ⟨_, more⟩
    · refine noSigil ?_
      rw [← String.append_assoc, String.toList_append, List.getLast?_append]
      rfl
    · have source : "(" ++ (sources chunks ++ (gap ++ behind)) ++ ")" =
          sources (opening "" blank_empty :: chunks) ++ (gap ++ (behind ++ ")")) := by
        rw [sources]
        simp only [String.append_assoc]
        rfl
      have first : (gap ++ (behind ++ ")")).toList.head? = (gap ++ behind).toList.head? := by
        have some : (gap ++ behind).toList ≠ [] := by
          rw [ne_eq, String.toList_eq_nil_iff, String.append_eq_empty_iff]
          exact fun empty => nonempty empty.2
        rw [← String.append_assoc, String.toList_append, List.head?_append_of_ne_nil _ some]
      have divided : Divided (opening "" blank_empty :: chunks) (gap ++ (behind ++ ")")).toList.head? := by
        rw [first]
        exact ⟨trivial, divided⟩
      rw [source] at built
      exact not_built_of_fault reads divided blank more built

include reads in
theorem build_parenthesized_of_build (noClosing : grammar.precedence.get? ")" = none) {source : String}
    (built : ((grammar.build source dropSigil).run log).1 = .ok tree) (log' : Log) :
    ((grammar.build ("(" ++ source ++ ")") dropSigil).run log').1 = .ok tree := by
  obtain ⟨chunks, tail, rfl, divided, blank | ⟨gap, behind, c, rfl, blank, fault⟩⟩ := exists_chunks d source
  · obtain ⟨group, respects, tokenized, same, -⟩ :=
      exists_group_of_build reads divided blank noClosing built log'
    exact (Grammar.build_eq_ok_iff noClosing).mpr ⟨group, respects, tokenized, same⟩
  · exact (not_built_of_fault reads divided blank fault built).elim

end Interior

/-- What a grammar builds it builds in parentheses as well, to the same tree, and there the check of boolean
formulas lets it through. -/
theorem build_between_parentheses (d : Dialect) {grammar : Grammar} (reads : grammar.lexing = d.lexing)
    (noClosing : grammar.precedence.get? ")" = none) {source : String} {dropSigil : Bool} {tree : Expr} {log : Log}
    (built : ((grammar.build source dropSigil).run log).1 = .ok tree) (log' : Log) :
    ((grammar.build ("(" ++ source ++ ")") dropSigil).run log').1 = .ok tree ∧
      ((Boolean.build grammar ("(" ++ source ++ ")") dropSigil).run log').1 = .ok tree := by
  have around := build_parenthesized_of_build reads noClosing built log'
  rw [Boolean.build_parenthesized]
  exact ⟨around, around⟩

/-- An opening parenthesis that joins operands, behind one that groups them. -/
theorem build_between_parentheses_of_joined :
    (Boolean.grammar.withPrecedence (.ofList [("(", 5), ("||", 20)])).lexing = Dialect.logical.lexing ∧
    (PrecedenceTable.ofList [("(", 5), ("||", 20)]).get? ")" = none ∧
    (((Boolean.grammar.withPrecedence (.ofList [("(", 5), ("||", 20)])).build "$a ( $b || $c" true).run {}).1 =
      .ok (.op "(" (.var "a") (.op "||" (.var "b") (.var "c"))) ∧
    ((Boolean.build (Boolean.grammar.withPrecedence (.ofList [("(", 5), ("||", 20)])) "($a ( $b || $c)" true).run
      {}).1 = .ok (.op "(" (.var "a") (.op "||" (.var "b") (.var "c"))) := by
  have noClosing : (PrecedenceTable.ofList [("(", 5), ("||", 20)]).get? ")" = none := by decide
  have built : (((Boolean.grammar.withPrecedence (.ofList [("(", 5), ("||", 20)])).build "$a ( $b || $c" true).run
      {}).1 = .ok (.op "(" (.var "a") (.op "||" (.var "b") (.var "c"))) := by
    decide +kernel
  exact ⟨rfl, noClosing, built, (build_between_parentheses .logical rfl noClosing built {}).2⟩

end Dialect

/-! ### Boolean formulas -/

/-- What stands between the outer parentheses of a boolean formula is a formula just when these close each
other and no bare sigil comes to stand at the end, and then it has the same tree. -/
theorem Boolean.build_interior_iff {source : String} {dropSigil : Bool} {tree : Expr} {log : Log}
    (built : ((build grammar source dropSigil).run log).1 = .ok tree) :
    ∃ interior, source = "(" ++ interior ++ ")" ∧ ∀ found,
      ((grammar.build interior dropSigil).run log).1 = .ok found ↔
        found = tree ∧ Enclosed source ∧ interior.toList.getLast? ≠ some '$' := by
  obtain ⟨interior, rfl⟩ := exists_interior_of_build built
  rw [build_parenthesized] at built
  refine ⟨interior, rfl, fun found => ?_⟩
  rw [Dialect.build_iff_enclosed (d := .logical) rfl (by decide) (by decide), built, Except.ok.injEq, eq_comm]

/-- Two groups inside of the outer parentheses, behind a blank. -/
theorem Boolean.build_interior_of_groups :
    ((build grammar "( ($a) || ($b))" true).run {}).1 = .ok (.op "||" (.var "a") (.var "b")) ∧
      ((grammar.build " ($a) || ($b)" true).run {}).1 = .ok (.op "||" (.var "a") (.var "b")) := by
  have built : ((build grammar "( ($a) || ($b))" true).run {}).1 = .ok (.op "||" (.var "a") (.var "b")) := by
    decide +kernel
  obtain ⟨interior, split, found⟩ := build_interior_iff built
  obtain rfl : " ($a) || ($b)" = interior := by
    have same : "(" ++ " ($a) || ($b)" ++ ")" = "(" ++ interior ++ ")" := split
    rwa [String.append_left_inj, String.append_right_inj] at same
  exact ⟨built, (found _).mpr ⟨rfl, by decide, by decide⟩⟩

/-- A bare sigil is no formula, but is one in parentheses. Two groups side by side stand in parentheses that do
not close each other, and what is between these is no formula. -/
theorem Boolean.build_without_interior :
    (((build grammar "($)" false).run {}).1 = .ok (.var "$") ∧
      "($)" = "(" ++ "$" ++ ")" ∧
      ((grammar.build "$" false).run {}).1 = .error (.lexical ⟨'$', 0, "$"⟩)) ∧
    ((build grammar "($a) || ($b)" false).run {}).1 = .ok (.op "||" (.var "$a") (.var "$b")) ∧
      "($a) || ($b)" = "(" ++ "$a) || ($b" ++ ")" ∧
      ((grammar.build "$a) || ($b" false).run {}).1 =
        .error (.grammatical (.placed (.trailingToken ")") 2 "$a) || ($b")) := by
  decide +kernel

end Formula
