import Formula.Proofs.Token.Lexeme
import Formula.Proofs.Token.Run

/-!
# Texts in chunks

A text is read chunk by chunk. Every text has as many chunks as can be read, up to its end or to a fault
(`exists_chunks`), and the lexing reads them and then comes to its end or fails there
(`exists_lexes_source_of_blank`, `exists_lexes_source_of_fault`). So what the chunks of a source are settles how
reading it ends.
-/

namespace Formula.Dialect

open Ascii (isBlankChar isNameChar)

variable {d : Dialect}

namespace Chunk

/-- The text of some chunks in a row. -/
def sources : List (Chunk d) → String
  | [] => ""
  | chunk :: rest => chunk.source ++ sources rest

/-- The tokens of some chunks in a row that start at `offset`. -/
def tokens (dropSigil : Bool) : Nat → List (Chunk d) → List Token
  | _, [] => []
  | offset, chunk :: rest =>
    chunk.token dropSigil offset :: tokens dropSigil (offset + chunk.source.utf8ByteSize) rest

/-- Every chunk is whole before what follows, which is `next?` behind the last one. -/
def Divided : List (Chunk d) → Option Char → Prop
  | [], _ => True
  | chunk :: rest, next? => chunk.Fits ((sources rest).toList.head?.or next?) ∧ Divided rest next?

theorem head?_sources_append (chunks : List (Chunk d)) (tail : String) :
    (sources chunks ++ tail).toList.head? = (sources chunks).toList.head?.or tail.toList.head? := by
  rw [String.toList_append, List.head?_append]

theorem sources_append (first second : List (Chunk d)) :
    sources (first ++ second) = sources first ++ sources second := by
  induction first with
  | nil => exact String.empty_append.symm
  | cons chunk rest ih => rw [List.cons_append, sources, sources, ih, String.append_assoc]

theorem tokens_append (dropSigil : Bool) (first second : List (Chunk d)) (offset : Nat) :
    tokens dropSigil offset (first ++ second) =
      tokens dropSigil offset first ++ tokens dropSigil (offset + (sources first).utf8ByteSize) second := by
  induction first generalizing offset with
  | nil => rfl
  | cons chunk rest ih =>
    rw [List.cons_append, tokens, tokens, ih, sources, String.utf8ByteSize_append, Nat.add_assoc,
      List.cons_append]

theorem divided_append {first second : List (Chunk d)} {next? : Option Char} :
    Divided (first ++ second) next? ↔
      Divided first ((sources second).toList.head?.or next?) ∧ Divided second next? := by
  induction first with
  | nil => exact (and_iff_right trivial).symm
  | cons chunk rest ih =>
    rw [List.cons_append, Divided, Divided, ih, sources_append, head?_sources_append, Option.or_assoc,
      and_assoc]

end Chunk

open Chunk (sources tokens Divided)

theorem exists_lexes_of_divided {dropSigil : Bool} {tail : String} {result : Except LexError (List Token)}
    {after : Lexer} (chunks : List (Chunk d)) (divided : Divided chunks tail.toList.head?) (front : String)
    (onward : ∃ events,
      d.lexing.Lexes dropSigil (.between (front ++ sources chunks) tail) (result, after) events) :
    ∃ events, d.lexing.Lexes dropSigil (.between front (sources chunks ++ tail))
      (result.map (tokens dropSigil front.utf8ByteSize chunks ++ ·), after) events := by
  induction chunks generalizing front with
  | nil =>
    have same : result.map (tokens (d := d) dropSigil front.utf8ByteSize [] ++ ·) = result := by
      cases result with
      | error e => rfl
      | ok rest => rfl
    rw [sources, String.append_empty] at onward
    rwa [same, sources, String.empty_append]
  | cons chunk rest ih =>
    obtain ⟨fits, divided⟩ := divided
    rw [← Chunk.head?_sources_append] at fits
    rw [sources, ← String.append_assoc] at onward
    obtain ⟨_, onward⟩ := ih divided (front ++ chunk.source) onward
    -- The rest starts where the first chunk ends.
    have same : result.map (tokens dropSigil front.utf8ByteSize (chunk :: rest) ++ ·) =
        (result.map (tokens dropSigil (front ++ chunk.source).utf8ByteSize rest ++ ·)).map
          (chunk.token dropSigil front.utf8ByteSize :: ·) := by
      rw [String.utf8ByteSize_append]
      cases result with
      | error e => rfl
      | ok rest => rfl
    rw [same, sources, String.append_assoc]
    exact ⟨_, .token (next_chunk dropSigil chunk fits front) onward⟩

theorem exists_lexes_of_blank {tail : String} (blank : ∀ c ∈ tail.toList, isBlankChar c = true)
    (dropSigil : Bool) (front : String) :
    ∃ events, d.lexing.Lexes dropSigil (.between front tail) (.ok [], .between (front ++ tail) "") events :=
  ⟨_, .ends (next_blank blank front)⟩

theorem exists_lexes_of_fault {gap behind : String} (blank : ∀ c ∈ gap.toList, isBlankChar c = true) {c : Char}
    (fault : d.Fault behind c) (dropSigil : Bool) (front : String) :
    ∃ after events, d.lexing.Lexes dropSigil (.between front (gap ++ behind))
      (.error ⟨c, (front ++ gap).utf8ByteSize, front ++ gap ++ behind⟩, after) events := by
  obtain ⟨after, read⟩ := exists_next_fault dropSigil blank fault front
  exact ⟨after, _, .fails read⟩

/-! ### What a lexeme starts with -/

theorem exists_starts_of_lexeme {kind : Kind} {text : String} (lexeme : d.Lexeme kind text) :
    ∃ c decoder, text.toList.head? = some c ∧ d.Starts c decoder ∧ (decoder == .int) = (kind == .int) := by
  cases lexeme with
  | op listed =>
    rcases mem_operators_iff.mp listed with ⟨c, member, rfl⟩ | ⟨c, member, rfl⟩
    · exact ⟨c, .op, by simp, .op member, rfl⟩
    · exact ⟨c, .logic, by simp, .logic member, rfl⟩
  | int known nonempty digits =>
    obtain ⟨c, rest, same⟩ := List.exists_cons_of_ne_nil (mt String.toList_eq_nil_iff.mp nonempty)
    have digit : c.isDigit = true := digits c (by simp [same])
    exact ⟨c, .int, by simp [same], .int known digit, rfl⟩
  | var letters => exact ⟨'$', .var, head?_singleton_append '$' _, .var, rfl⟩

theorem isDigit_of_starts {c : Char} {decoder : Decoder} (starts : d.Starts c decoder) :
    c.isDigit = (decoder == .int) ∧ isNameChar c = (decoder == .int) := by
  cases starts with
  | op member =>
    cases d with
    | arithmetic => revert c; decide
    | logical => revert c; decide
  | logic member =>
    cases d with
    | arithmetic => cases member
    | logical => revert c; decide
  | int known digit => exact ⟨digit, Ascii.isNameChar_of_isDigit digit⟩
  | var => exact ⟨rfl, rfl⟩

/-- Of all lexemes only a literal starts with a character that could go on one before it. -/
theorem exists_first_of_lexeme {kind : Kind} {text : String} (lexeme : d.Lexeme kind text) :
    ∃ c, text.toList.head? = some c ∧ c.isDigit = (kind == .int) ∧ isNameChar c = (kind == .int) := by
  obtain ⟨c, decoder, first, starts, same⟩ := exists_starts_of_lexeme lexeme
  obtain ⟨digit, name⟩ := isDigit_of_starts starts
  exact ⟨c, first, digit.trans same, name.trans same⟩

theorem source_ne_empty (chunk : Chunk d) : chunk.source ≠ "" := by
  obtain ⟨c, first, -⟩ := exists_first_of_lexeme chunk.lexeme
  rintro empty
  obtain ⟨-, empty⟩ := String.append_eq_empty_iff.mp empty
  rw [empty] at first
  cases first

/-! ### Every text in chunks -/

/-- A text is read chunk by chunk, up to its end or to a fault. -/
theorem exists_chunks (d : Dialect) (text : String) :
    ∃ (chunks : List (Chunk d)) (tail : String), text = sources chunks ++ tail ∧
      Divided chunks tail.toList.head? ∧ ((∀ c ∈ tail.toList, isBlankChar c = true) ∨
        ∃ gap behind c, tail = gap ++ behind ∧ (∀ c ∈ gap.toList, isBlankChar c = true) ∧
          d.Fault behind c) := by
  induction length : text.utf8ByteSize using Nat.strongRecOn generalizing text with
  | ind size shorter =>
    rcases exists_chunk_or_fault d text with blank | ⟨chunk, behind, rfl, fits⟩ | fault
    · exact ⟨[], text, String.empty_append.symm, trivial, .inl blank⟩
    · -- No chunk is empty, so what is behind one is shorter.
      have less : behind.utf8ByteSize < size := by
        have := mt String.utf8ByteSize_eq_zero_iff.mp (source_ne_empty chunk)
        rw [String.utf8ByteSize_append] at length
        omega
      obtain ⟨chunks, tail, rfl, divided, rest⟩ := shorter _ less behind rfl
      rw [Chunk.head?_sources_append] at fits
      exact ⟨chunk :: chunks, tail, String.append_assoc.symm, ⟨fits, divided⟩, rest⟩
    · exact ⟨[], text, String.empty_append.symm, trivial, .inr fault⟩

/-! ### Whole sources -/

theorem exists_lexes_source_of_blank {chunks : List (Chunk d)} {tail : String}
    (divided : Divided chunks tail.toList.head?) (blank : ∀ c ∈ tail.toList, isBlankChar c = true)
    (dropSigil : Bool) :
    ∃ events, d.lexing.Lexes dropSigil (.ofSource (sources chunks ++ tail))
      (.ok (tokens dropSigil 0 chunks), .between (sources chunks ++ tail) "") events := by
  have read := exists_lexes_of_divided chunks divided "" (exists_lexes_of_blank blank dropSigil _)
  rw [← Lexer.ofSource_eq_between, String.empty_append] at read
  simpa [Except.map] using read

theorem exists_lexes_source_of_fault {chunks : List (Chunk d)} {gap behind : String} {c : Char}
    (divided : Divided chunks (gap ++ behind).toList.head?) (blank : ∀ c ∈ gap.toList, isBlankChar c = true)
    (fault : d.Fault behind c) (dropSigil : Bool) :
    ∃ after events, d.lexing.Lexes dropSigil (.ofSource (sources chunks ++ (gap ++ behind)))
      (.error ⟨c, (sources chunks ++ gap).utf8ByteSize, sources chunks ++ (gap ++ behind)⟩, after) events := by
  obtain ⟨after, failed⟩ := exists_lexes_of_fault blank fault dropSigil (sources chunks)
  have read := exists_lexes_of_divided chunks divided "" (by rwa [String.empty_append])
  rw [← Lexer.ofSource_eq_between, String.append_assoc] at read
  exact ⟨after, read⟩

theorem tokenize_of_blank {chunks : List (Chunk d)} {tail : String} (divided : Divided chunks tail.toList.head?)
    (blank : ∀ c ∈ tail.toList, isBlankChar c = true) (dropSigil : Bool) (log : Log) :
    ((d.lexing.tokenize dropSigil (sources chunks ++ tail)).run log).1 = .ok (tokens dropSigil 0 chunks) := by
  obtain ⟨_, lexes⟩ := exists_lexes_source_of_blank divided blank dropSigil
  exact (Lexing.emits_tokenize lexes).value_eq log

theorem tokenize_of_fault {chunks : List (Chunk d)} {gap behind : String} {c : Char}
    (divided : Divided chunks (gap ++ behind).toList.head?) (blank : ∀ c ∈ gap.toList, isBlankChar c = true)
    (fault : d.Fault behind c) (dropSigil : Bool) (log : Log) :
    ((d.lexing.tokenize dropSigil (sources chunks ++ (gap ++ behind))).run log).1 =
      .error ⟨c, (sources chunks ++ gap).utf8ByteSize, sources chunks ++ (gap ++ behind)⟩ := by
  obtain ⟨_, _, lexes⟩ := exists_lexes_source_of_fault divided blank fault dropSigil
  exact (Lexing.emits_tokenize lexes).value_eq log

end Formula.Dialect
