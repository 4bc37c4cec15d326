import Formula.Proofs.Token.Layout

/-!
# Where lexing fails

A failure stands where the longest text that can be read ends: what is before it is read once a blank follows,
and what is ahead can be no token whatever comes after (`tokenize_error_breaksAt`). The character that it
names is the one at that place, except behind an operator that is not doubled, where it is the next one.
-/

namespace Formula.Dialect

open Ascii (isBlankChar isNameChar)
open Chunk (sources tokens Divided)

variable {d : Dialect} {dropSigil : Bool}

def FailsAt (d : Dialect) (dropSigil : Bool) (source : String) (offset : Nat) (character : Char) : Prop :=
  ∀ log, ((d.lexing.tokenize dropSigil source).run log).1 = .error ⟨character, offset, source⟩

/-- The character ahead starts no lexeme, and every source that goes on with it fails there. -/
def IsUnknown (d : Dialect) (dropSigil : Bool) (front behind : String) (character : Char) : Prop :=
  ∃ rest, behind = String.singleton character ++ rest ∧
    (∀ kind text, d.Lexeme kind text → text.toList.head? ≠ some character) ∧
    ∀ other, FailsAt d dropSigil (front ++ (String.singleton character ++ other)) front.utf8ByteSize character

/-- A sigil is all that is ahead. -/
def IsDangling (behind : String) (character : Char) : Prop := behind = "$" ∧ character = '$'

/-- One half of an operator is ahead, and the character behind it is to blame, or the half if there is none. -/
def IsHalved (d : Dialect) (dropSigil : Bool) (front behind : String) (character : Char) : Prop :=
  d = .logical ∧ ∃ half rest, (half = '&' ∨ half = '|') ∧ behind = String.singleton half ++ rest ∧
    rest.toList.head? ≠ some half ∧
    (rest = "" ∧ character = half ∨ ∃ more, rest = String.singleton character ++ more ∧
      ∀ other, FailsAt d dropSigil (front ++ (String.singleton half ++ (String.singleton character ++ other)))
        front.utf8ByteSize character)

theorem failsAt_of_fault {chunks : List (Chunk d)} {gap behind : String} {c : Char}
    (divided : Divided chunks (gap ++ behind).toList.head?) (blank : ∀ c ∈ gap.toList, isBlankChar c = true)
    (fault : d.Fault behind c) :
    FailsAt d dropSigil (sources chunks ++ gap ++ behind) (sources chunks ++ gap).utf8ByteSize c := by
  intro log
  rw [String.append_assoc]
  exact tokenize_of_fault divided blank fault dropSigil log

theorem exists_tokenize_append_blank {chunks : List (Chunk d)} {gap : String} {next? : Option Char}
    (divided : Divided chunks next?) (blank : ∀ c ∈ gap.toList, isBlankChar c = true) (log : Log) :
    ∃ read, ((d.lexing.tokenize dropSigil (sources chunks ++ gap ++ " ")).run log).1 = .ok read := by
  have all : ∀ c ∈ (gap ++ " ").toList, isBlankChar c = true := by
    rw [String.toList_append]
    intro c member
    rcases List.mem_append.mp member with inside | last
    · exact blank c inside
    · cases List.mem_singleton.mp last
      rfl
  obtain ⟨c, first⟩ : ∃ c, (gap ++ " ").toList.head? = some c := by
    rw [String.toList_append, List.head?_append]
    cases gap.toList.head? with
    | none => exact ⟨' ', rfl⟩
    | some c => exact ⟨c, rfl⟩
  -- Whatever stood there, a blank behind the last chunk leaves it whole.
  have whole := divided.of_not_isNameChar (Ascii.not_isNameChar_of_isBlankChar (all c (List.mem_of_head? first)))
  rw [← first] at whole
  rw [String.append_assoc]
  exact ⟨_, tokenize_of_blank whole all dropSigil log⟩

theorem Chunk.Divided.of_first {chunks : List (Chunk d)} {gap rest : String} {c : Char}
    (divided : Divided chunks (gap ++ (String.singleton c ++ rest)).toList.head?) (other : String) :
    Divided chunks (gap ++ (String.singleton c ++ other)).toList.head? := by
  have same : (gap ++ (String.singleton c ++ other)).toList.head? =
      (gap ++ (String.singleton c ++ rest)).toList.head? := by
    simp [String.toList_append]
  rwa [same]

theorem cases_of_fault {chunks : List (Chunk d)} {gap behind : String} {c : Char}
    (divided : Divided chunks (gap ++ behind).toList.head?) (blank : ∀ c ∈ gap.toList, isBlankChar c = true)
    (fault : d.Fault behind c) :
    IsUnknown d dropSigil (sources chunks ++ gap) behind c ∨ IsDangling behind c ∨
      IsHalved d dropSigil (sources chunks ++ gap) behind c := by
  cases fault with
  | unknown stops unread rest =>
    -- The chunks before a fault are divided by its first character, so what is behind it may change.
    refine .inl ⟨rest, rfl, fun kind text lexeme first => ?_, fun other => ?_⟩
    · obtain ⟨other, decoder, starting, starts, -⟩ := exists_starts_of_lexeme lexeme
      rw [first] at starting
      cases starting
      exact unread decoder starts
    · exact failsAt_of_fault (divided.of_first other) blank (.unknown stops unread other)
  | dangling => exact .inr (.inl ⟨rfl, rfl⟩)
  | @single half _ member different rest =>
    cases d with
    | arithmetic => cases member
    | logical =>
      refine .inr (.inr ⟨rfl, half, _, by simpa [doubles] using member, rfl, by simp [different],
        .inr ⟨rest, rfl, fun other => ?_⟩⟩)
      exact failsAt_of_fault (divided.of_first _) blank (.single member different other)
  | last member =>
    cases d with
    | arithmetic => cases member
    | logical =>
      refine .inr (.inr ⟨rfl, c, "", by simpa [doubles] using member, String.append_empty.symm, ?_,
        .inl ⟨rfl, rfl⟩⟩)
      rintro ⟨⟩

/-! ### Only one of the three -/

theorem not_isUnknown_of_lexeme {kind : Kind} {text front behind : String} {c character : Char}
    (lexeme : d.Lexeme kind text) (first : text.toList.head? = some c) (ahead : behind.toList.head? = some c) :
    ¬ IsUnknown d dropSigil front behind character := by
  rintro ⟨rest, rfl, unread, -⟩
  rw [head?_singleton_append] at ahead
  cases ahead
  exact unread kind text lexeme first

theorem not_isUnknown_of_isDangling {front behind : String} {character : Char}
    (dangling : IsDangling behind character) : ¬ IsUnknown d dropSigil front behind character := by
  obtain ⟨rfl, -⟩ := dangling
  have lexeme : d.Lexeme .var ("$" ++ "") := .var (by decide)
  exact not_isUnknown_of_lexeme lexeme rfl rfl

theorem not_isUnknown_of_isHalved {front behind : String} {character : Char}
    (halved : IsHalved d dropSigil front behind character) :
    ¬ IsUnknown d dropSigil front behind character := by
  obtain ⟨rfl, half, rest, rfl | rfl, rfl, -⟩ := halved
  · have lexeme : logical.Lexeme .op "&&" := .op (by decide)
    exact not_isUnknown_of_lexeme lexeme rfl (head?_singleton_append _ _)
  · have lexeme : logical.Lexeme .op "||" := .op (by decide)
    exact not_isUnknown_of_lexeme lexeme rfl (head?_singleton_append _ _)

theorem not_isHalved_of_isDangling {front behind : String} {character : Char}
    (dangling : IsDangling behind character) : ¬ IsHalved d dropSigil front behind character := by
  obtain ⟨rfl, -⟩ := dangling
  rintro ⟨-, half, rest, either, same, -⟩
  have first : ("$" : String).toList.head? = some half := by rw [same, head?_singleton_append]
  cases first
  revert either
  decide

theorem Fault.ne_empty {behind : String} {c : Char} (fault : d.Fault behind c) : behind ≠ "" := by
  cases fault with
  | unknown => simp
  | dangling => decide
  | single => simp
  | last => simp

/-- A source is readable up to where `e` stands and no further, for one of three reasons. -/
structure BreaksAt (d : Dialect) (dropSigil : Bool) (source : String) (e : LexError) (front behind : String) :
    Prop where
  split : source = front ++ behind
  quoted : e.source = source
  offset_eq : e.offset = front.utf8ByteSize
  inside : e.offset < source.utf8ByteSize
  readable : ∀ log, ∃ read, ((d.lexing.tokenize dropSigil (front ++ " ")).run log).1 = .ok read
  reason : IsUnknown d dropSigil front behind e.character ∨ IsDangling behind e.character ∨
    IsHalved d dropSigil front behind e.character
  not_dangling : IsUnknown d dropSigil front behind e.character → ¬ IsDangling behind e.character
  not_halved : IsUnknown d dropSigil front behind e.character ∨ IsDangling behind e.character →
    ¬ IsHalved d dropSigil front behind e.character

/-- A failure stands at the first place where reading cannot go on. -/
theorem tokenize_error_breaksAt (d : Dialect) (dropSigil : Bool) (source : String) (e : LexError) (log : Log)
    (failed : ((d.lexing.tokenize dropSigil source).run log).1 = .error e) :
    ∃ front behind, BreaksAt d dropSigil source e front behind := by
  obtain ⟨chunks, tail, rfl, divided, blank | ⟨gap, behind, c, rfl, blank, fault⟩⟩ := exists_chunks d source
  · obtain ⟨_, lexes⟩ := exists_lexes_source_of_blank divided blank dropSigil
    cases ((Lexing.emits_tokenize lexes).value_eq log).symm.trans failed
  · obtain ⟨_, _, lexes⟩ := exists_lexes_source_of_fault divided blank fault dropSigil
    cases ((Lexing.emits_tokenize lexes).value_eq log).symm.trans failed
    exact ⟨sources chunks ++ gap, behind,
      { split := String.append_assoc.symm
        quoted := rfl
        offset_eq := rfl
        inside := by
          have := mt String.utf8ByteSize_eq_zero_iff.mp fault.ne_empty
          simp only [String.utf8ByteSize_append]
          omega
        readable := exists_tokenize_append_blank divided blank
        reason := cases_of_fault divided blank fault
        not_dangling := fun unknown dangling => not_isUnknown_of_isDangling dangling unknown
        not_halved := by
          rintro (unknown | dangling) halved
          · exact not_isUnknown_of_isHalved halved unknown
          · exact not_isHalved_of_isDangling dangling halved }⟩

/-- One half of an operator, with a character of two bytes to blame behind it. -/
theorem tokenize_half_before_accent :
    ((logical.lexing.tokenize true "($a &é").run {}).1 = .error ⟨'é', 4, "($a &é"⟩ ∧
      ∃ front behind, BreaksAt logical true "($a &é" ⟨'é', 4, "($a &é"⟩ front behind := by
  have failed : ((logical.lexing.tokenize true "($a &é").run {}).1 = .error ⟨'é', 4, "($a &é"⟩ := by
    decide +kernel
  exact ⟨failed, tokenize_error_breaksAt logical true "($a &é" ⟨'é', 4, "($a &é"⟩ {} failed⟩

end Formula.Dialect
