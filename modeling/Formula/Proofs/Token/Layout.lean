import Mathlib.Data.List.Chain
import Formula.Proofs.Token.Chunks

/-!
# Layouts

A layout spells a source as lexemes with blanks around them. A source is read as tokens just when it has a
layout in which no literal follows directly on a name or a literal and no bare sigil ends the source
(`tokenize_eq_ok_iff`). The tokens are then the lexemes at their places.
-/

namespace Formula.Dialect

open Ascii (isBlankChar isNameChar)
open Chunk (sources tokens Divided)

variable {d : Dialect}

/-- Lexemes with blanks before, between and behind them. -/
structure Layout (d : Dialect) where
  chunks : List (Chunk d)
  tail : String
  blank : ∀ c ∈ tail.toList, isBlankChar c = true

namespace Layout

def source (layout : Layout d) : String := sources layout.chunks ++ layout.tail

/-- Each lexeme as a token of its kind, placed behind all that stands before it. -/
def tokens (dropSigil : Bool) (layout : Layout d) : List Token := Chunk.tokens dropSigil 0 layout.chunks

end Layout

/-- No literal stands directly behind a literal or a variable, and no bare sigil at the end. -/
structure Separated (chunks : List (Chunk d)) (tail : String) : Prop where
  literal : chunks.IsChain fun chunk next => chunk.kind ≠ .op → next.gap = "" → next.kind ≠ .int
  sigil : ∀ last ∈ chunks.getLast?, last.text = "$" → tail ≠ ""

/-! ### Lexemes that are whole -/

theorem kind_of_sigil (chunk : Chunk d) (sigil : chunk.text = "$") : chunk.kind = .var := by
  obtain ⟨gap, kind, text, _, lexeme⟩ := chunk
  dsimp only at sigil ⊢
  subst sigil
  cases kind with
  | op =>
    cases lexeme with
    | op listed =>
      cases d with
      | arithmetic => revert listed; decide
      | logical => revert listed; decide
  | var => rfl
  | int =>
    obtain ⟨c, first, digit, -⟩ := exists_first_of_lexeme lexeme
    cases first
    cases digit

theorem fits_some_iff {chunk : Chunk d} {c : Char} {longer : Bool} (digit : c.isDigit = longer)
    (name : isNameChar c = longer) : chunk.Fits (some c) ↔ (chunk.kind ≠ .op → longer = false) := by
  obtain ⟨gap, kind, text, blank, lexeme⟩ := chunk
  cases kind with
  | op => simp [Chunk.Fits]
  | var => simp [Chunk.Fits, name]
  | int => simp [Chunk.Fits, digit]

theorem fits_of_not_isNameChar (chunk : Chunk d) {c : Char} (stops : isNameChar c = false) :
    chunk.Fits (some c) := by
  have digit : c.isDigit = false := by
    rw [← Bool.not_eq_true]
    intro digit
    rw [Ascii.isNameChar_of_isDigit digit] at stops
    cases stops
  exact (fits_some_iff digit stops).mpr fun _ => rfl

theorem fits_of_isBlankChar (chunk : Chunk d) {c : Char} (blank : isBlankChar c = true) :
    chunk.Fits (some c) :=
  fits_of_not_isNameChar chunk (Ascii.not_isNameChar_of_isBlankChar blank)

theorem Chunk.Divided.of_not_isNameChar {chunks : List (Chunk d)} {next? : Option Char} {c : Char}
    (divided : Divided chunks next?) (stops : isNameChar c = false) : Divided chunks (some c) := by
  induction chunks with
  | nil => trivial
  | cons chunk rest ih =>
    obtain ⟨fits, divided⟩ := divided
    refine ⟨?_, ih divided⟩
    cases first : (sources rest).toList.head? with
    | none => exact fits_of_not_isNameChar chunk stops
    | some other => rwa [first] at fits

/-- Only a literal without a gap could be taken for more of the chunk before it. -/
theorem fits_source_iff (chunk next : Chunk d) (next? : Option Char) :
    chunk.Fits (next.source.toList.head?.or next?) ↔
      (chunk.kind ≠ .op → next.gap = "" → next.kind ≠ .int) := by
  rcases eq_empty_or_exists_first next.gap with none | ⟨c, rest, some⟩
  · obtain ⟨c, first, digit, name⟩ := exists_first_of_lexeme next.lexeme
    rw [Chunk.source, none, String.empty_append, first, Option.some_or, fits_some_iff digit name]
    simp
  · have first : next.source.toList.head? = Option.some c := by
      rw [Chunk.source, some]
      simp
    have blank : isBlankChar c = true := next.blank c (by rw [some]; simp)
    rw [first, Option.some_or]
    refine iff_of_true (fits_of_isBlankChar chunk blank) fun _ empty => ?_
    rw [some] at empty
    simpa using congrArg String.toList empty

theorem fits_blank_iff (chunk : Chunk d) {tail : String} (blank : ∀ c ∈ tail.toList, isBlankChar c = true) :
    chunk.Fits tail.toList.head? ↔ (chunk.text = "$" → tail ≠ "") := by
  rcases eq_empty_or_exists_first tail with rfl | ⟨c, rest, rfl⟩
  · have sigil := kind_of_sigil chunk
    obtain ⟨gap, kind, text, _, lexeme⟩ := chunk
    cases kind with
    | var => simp [Chunk.Fits]
    | op => exact iff_of_true trivial fun same => nomatch sigil same
    | int => exact iff_of_true nofun fun same => nomatch sigil same
  · rw [String.toList_append, String.toList_singleton]
    refine iff_of_true (fits_of_isBlankChar chunk (blank c (by simp))) fun _ => ?_
    exact fun empty => String.singleton_ne_empty (String.append_eq_empty_iff.mp empty).1

theorem separated_singleton_iff {chunk : Chunk d} {tail : String} :
    Separated [chunk] tail ↔ (chunk.text = "$" → tail ≠ "") := by
  constructor
  · exact fun separated => separated.sigil chunk rfl
  · intro sigil
    refine ⟨List.isChain_singleton _, ?_⟩
    rintro _ ⟨⟩
    exact sigil

theorem separated_cons_cons_iff {chunk next : Chunk d} {more : List (Chunk d)} {tail : String} :
    Separated (chunk :: next :: more) tail ↔
      (chunk.kind ≠ .op → next.gap = "" → next.kind ≠ .int) ∧ Separated (next :: more) tail := by
  constructor
  · rintro ⟨literal, sigil⟩
    obtain ⟨first, literal⟩ := List.isChain_cons_cons.mp literal
    exact ⟨first, literal, sigil⟩
  · rintro ⟨first, literal, sigil⟩
    exact ⟨List.isChain_cons_cons.mpr ⟨first, literal⟩, sigil⟩

theorem divided_iff_separated {tail : String} (blank : ∀ c ∈ tail.toList, isBlankChar c = true)
    (chunks : List (Chunk d)) : Divided chunks tail.toList.head? ↔ Separated chunks tail := by
  induction chunks with
  | nil => exact iff_of_true trivial ⟨List.isChain_nil, nofun⟩
  | cons chunk rest ih =>
    cases rest with
    | nil =>
      rw [separated_singleton_iff, ← fits_blank_iff chunk blank]
      exact and_iff_left trivial
    | cons next more =>
      rw [separated_cons_cons_iff, ← ih, Divided, sources, String.toList_append, List.head?_append,
        Option.or_assoc, fits_source_iff]

/-! ### Sources and their layouts -/

variable {dropSigil : Bool}

theorem exists_lexes_of_separated {layout : Layout d} (separated : Separated layout.chunks layout.tail)
    (dropSigil : Bool) :
    ∃ events, d.lexing.Lexes dropSigil (.ofSource layout.source)
      (.ok (layout.tokens dropSigil), .between layout.source "") events :=
  exists_lexes_source_of_blank ((divided_iff_separated layout.blank _).mpr separated) layout.blank dropSigil

theorem exists_layout_of_tokenize {source : String} {read : List Token} {log : Log}
    (tokenized : ((d.lexing.tokenize dropSigil source).run log).1 = .ok read) :
    ∃ layout : Layout d, layout.source = source ∧ Separated layout.chunks layout.tail ∧
      layout.tokens dropSigil = read := by
  obtain ⟨chunks, tail, rfl, divided, blank | ⟨gap, behind, c, rfl, blank, fault⟩⟩ := exists_chunks d source
  · have same := (tokenize_of_blank divided blank dropSigil log).symm.trans tokenized
    exact ⟨⟨chunks, tail, blank⟩, rfl, (divided_iff_separated blank chunks).mp divided, Except.ok.inj same⟩
  · cases (tokenize_of_fault divided blank fault dropSigil log).symm.trans tokenized

/-- A source is read as the tokens of its separated layouts, and then it is read to its end. -/
theorem tokenize_eq_ok_iff (d : Dialect) (source : String) (read : List Token) (log : Log) :
    (((d.lexing.tokenize false source).run log).1 = .ok read ↔
      ∃ layout : Layout d, layout.source = source ∧ Separated layout.chunks layout.tail ∧
        layout.tokens false = read) ∧
    (((d.lexing.tokenize false source).run log).1 = .ok read →
      ((d.lexing.tokenizeFrom false (.ofSource source)).run log).1.2.offset = source.utf8ByteSize) := by
  refine ⟨⟨exists_layout_of_tokenize, ?_⟩, fun tokenized => ?_⟩
  · rintro ⟨layout, rfl, separated, rfl⟩
    obtain ⟨_, lexes⟩ := exists_lexes_of_separated separated false
    exact (Lexing.emits_tokenize lexes).value_eq log
  · obtain ⟨layout, rfl, separated, -⟩ := exists_layout_of_tokenize tokenized
    obtain ⟨_, lexes⟩ := exists_lexes_of_separated separated false
    exact congrArg (fun ending => ending.2.offset) ((Lexing.emits_tokenizeFrom lexes).value_eq log)

/-- A bare sigil before a literal, and one more variable directly behind it. -/
theorem tokenize_sigil_literal_variable :
    ((Dialect.arithmetic.lexing.tokenize false " $ 12$x").run {}).1 =
        .ok [⟨"$", .var, 1⟩, ⟨"12", .int, 3⟩, ⟨"$x", .var, 5⟩] ∧
      ((Dialect.arithmetic.lexing.tokenizeFrom false (.ofSource " $ 12$x")).run {}).1.2.offset = 7 := by
  have read := (tokenize_eq_ok_iff .arithmetic " $ 12$x" [⟨"$", .var, 1⟩, ⟨"12", .int, 3⟩, ⟨"$x", .var, 5⟩] {})
  have tokenized := read.1.mpr ⟨⟨[⟨" ", .var, "$" ++ "", by decide, .var nofun⟩,
    ⟨" ", .int, "12", by decide, .int rfl (by decide) (by decide)⟩,
    ⟨"", .var, "$" ++ "x", by decide, .var (by decide)⟩], "", by decide⟩, by decide, ?_, by decide⟩
  · exact ⟨tokenized, read.2 tokenized⟩
  · exact ⟨by simp, by simp⟩

end Formula.Dialect
