import Formula.Proofs.Token.Calls
import Formula.Proofs.Token.Lexeme

/-!
# Character boundaries

A lexing that puts decoders to work at ASCII bytes only never leaves the cursor inside a character: all that the
cursor passes over is ASCII, so what is cut out for a token are whole characters, and a failure names the one at
the cursor (`Lexing.StartsAscii.safe`). The two built-in lexings are of that kind, and so they are safe on
whatever text there is (`Dialect.readsOnBoundaries`).
-/

namespace Formula

open Ascii (isAscii)
open Utf8 (IsSlice)

namespace Lexer

/-- No character is cut by the cursor. -/
def OnBoundary (lexer : Lexer) : Prop := String.Pos.Raw.IsValid lexer.source ⟨lexer.offset⟩

/-- The character at the cursor, if one starts there. -/
def ahead? (lexer : Lexer) : Option Char := (Utf8.decode? lexer.rest).bind fun text => text.toList.head?

theorem offendingCharacter_eq (lexer : Lexer) :
    lexer.offendingCharacter = lexer.ahead?.getD (lexer.source.toList.getLast?.getD '\x00') := by
  unfold offendingCharacter
  change _ = Option.getD (Option.bind _ _) _
  cases (Utf8.decode? lexer.rest).bind fun text => text.toList.head? with
  | none => rfl
  | some c => rfl

variable {lexer : Lexer}

theorem exists_ahead (on : lexer.OnBoundary) (more : lexer.rest ≠ []) : ∃ c, lexer.ahead? = some c := by
  obtain ⟨front, behind, split, offset⟩ := Utf8.isValid_iff.mp on
  have rest : lexer.rest = Utf8.encode behind := by
    rw [lexer.rest_eq, split, offset, Utf8.encode_append, List.drop_left' (Utf8.length_encode _)]
  rw [rest] at more
  cases chars : behind.toList with
  | nil =>
    rw [String.toList_eq_nil_iff.mp chars] at more
    exact (more rfl).elim
  | cons c _ =>
    refine ⟨c, ?_⟩
    rw [ahead?, rest, Utf8.decode?_encode, Option.bind_some, chars]
    rfl

theorem OnBoundary.advance (on : lexer.OnBoundary) {count : Nat} (inside : count ≤ lexer.rest.length)
    (ascii : ∀ byte ∈ lexer.rest.take count, isAscii byte = true) : (lexer.advance count).OnBoundary := by
  have within : lexer.offset + count ≤ lexer.source.utf8ByteSize := by
    have := Utf8.le_of_isValid on
    rw [length_rest] at inside
    omega
  rw [lexer.rest_eq] at ascii
  rw [OnBoundary, offset_advance]
  exact Utf8.isValid_add_of_ascii on within ascii

theorem OnBoundary.start (on : lexer.OnBoundary) (lexing : Lexing) : (lexing.start lexer).OnBoundary := by
  unfold Lexing.start
  split
  · refine on.advance (List.takeWhile_prefix _).length_le fun byte member => ?_
    exact isAscii_of_mem_take (fun byte => Ascii.isAscii_of_isBlank) member
  · exact on

/-- `e` names the character at the cursor, or the last one of the source if the cursor is at the end. -/
structure Names (lexer : Lexer) (e : LexError) : Prop where
  error_eq : e = lexer.errorAt e.offset
  character : lexer.ahead? = some e.character ∨
    lexer.offset = lexer.source.utf8ByteSize ∧ lexer.source.toList.getLast? = some e.character

theorem source_ne_empty_of_rest (more : lexer.rest ≠ []) : lexer.source ≠ "" := by
  intro empty
  have within := rest_ne_nil_iff.mp more
  rw [empty] at within
  exact Nat.not_lt_zero _ within

theorem names_errorAt (on : lexer.OnBoundary) (nonempty : lexer.source ≠ "") (start : Nat) :
    lexer.Names (lexer.errorAt start) := by
  refine ⟨rfl, ?_⟩
  rw [errorAt, offendingCharacter_eq]
  by_cases more : lexer.rest = []
  · right
    obtain ⟨c, last⟩ : ∃ c, lexer.source.toList.getLast? = some c :=
      ⟨_, List.getLast?_eq_some_getLast (mt String.toList_eq_nil_iff.mp nonempty)⟩
    have nothing : lexer.ahead? = none := by
      rw [ahead?, more]
      rfl
    have ended : ¬ lexer.offset < lexer.source.utf8ByteSize := fun within => rest_ne_nil_iff.mpr within more
    refine ⟨Nat.le_antisymm (Utf8.le_of_isValid on) (Nat.not_lt.mp ended), ?_⟩
    rw [nothing, last]
    rfl
  · left
    obtain ⟨c, ahead⟩ := exists_ahead on more
    rw [ahead]
    rfl

namespace Reading

/-- The decoder stands between characters, at an ASCII byte. -/
structure Clean (reading : Reading) : Prop where
  before : reading.before.OnBoundary
  more : reading.before.rest ≠ []
  ascii : ∀ byte ∈ reading.before.current?, isAscii byte = true

namespace Clean

variable {reading : Reading}

theorem advance (clean : reading.Clean) {count : Nat} (le : count ≤ 1) :
    (reading.before.advance count).OnBoundary := by
  obtain ⟨byte, rest, ahead⟩ := List.exists_cons_of_ne_nil clean.more
  refine clean.before.advance ?_ fun other member => clean.ascii other ?_
  · rw [ahead]
    exact Nat.le_trans le (Nat.succ_le_succ (Nat.zero_le _))
  · have first : other ∈ (byte :: rest).take 1 := by
      rw [ahead] at member
      exact (List.take_prefix_take_left le).subset member
    rw [current?, ahead, List.mem_singleton.mp first]
    rfl

theorem after (clean : reading.Clean) : reading.after.OnBoundary := by
  obtain ⟨outcome, decodes, -, after⟩ := reading.exists_decodes
  rw [after]
  cases decodes with
  | accepts kind moves inside shows ascii =>
    exact clean.before.advance inside (ascii (.inr (.inr clean.ascii)))
  | refuses atEnd => exact clean.before
  | halves logic more => exact clean.advance (Nat.le_refl 1)

theorem textStart (clean : reading.Clean) :
    String.Pos.Raw.IsValid reading.before.source ⟨reading.textStart⟩ := by
  have le : hidden reading.dropSigil reading.decoder ≤ 1 := by
    cases reading.decoder with
    | var =>
      rw [hidden]
      split
      · exact Nat.le_refl 1
      · exact Nat.zero_le 1
    | _ => exact Nat.zero_le 1
  exact clean.advance le

theorem isWhole (clean : reading.Clean) : reading.IsWhole := by
  have after := clean.after
  rw [OnBoundary, reading.sound.source_eq] at after
  exact ⟨clean.textStart, after⟩

theorem names (clean : reading.Clean) {e : LexError} (failed : reading.result = .error e) :
    reading.after.Names e := by
  have nonempty := source_ne_empty_of_rest clean.more
  obtain ⟨outcome, decodes, result, after⟩ := reading.exists_decodes
  rw [result] at failed
  rw [after]
  cases decodes with
  | accepts kind moves inside shows ascii => cases failed
  | refuses atEnd =>
    cases failed
    exact names_errorAt clean.before nonempty _
  | halves logic more =>
    cases failed
    exact names_errorAt (clean.advance (Nat.le_refl 1)) nonempty _

end Clean

end Reading

end Lexer

namespace Lexing

open Lexer (Reading)

variable {lexing : Lexing} {dropSigil : Bool} {first lexer after : Lexer} {reading : Reading}

/-- Decoders are put to work at ASCII bytes only. -/
def StartsAscii (lexing : Lexing) : Prop :=
  ∀ byte decoder, lexing.action byte = .decode decoder → isAscii byte = true

theorem StartsAscii.clean (starts : lexing.StartsAscii) (on : lexer.OnBoundary)
    (made : lexing.reading? dropSigil lexer = some reading) : reading.Clean := by
  obtain ⟨byte, ahead, chosen, whole⟩ := reading?_eq_some_iff.mp made
  rw [whole]
  refine ⟨on.start lexing, ?_, fun other first => ?_⟩
  · rintro empty
    rw [Lexer.current?, empty] at ahead
    cases ahead
  · cases ahead.symm.trans first
    exact starts byte _ chosen

/-- Asking for the next token at `lexer` never cuts a character. -/
structure Safe (lexing : Lexing) (dropSigil : Bool) (lexer : Lexer) : Prop where
  entered : lexer.OnBoundary
  left : (lexing.next dropSigil lexer).2.OnBoundary
  sliced : ∀ reading token, lexing.reading? dropSigil lexer = some reading → reading.result = .ok token →
    String.Pos.Raw.IsValid lexer.source ⟨reading.textStart⟩ ∧
      String.Pos.Raw.IsValid lexer.source ⟨reading.after.offset⟩ ∧
      reading.textStart ≤ reading.after.offset ∧ reading.after.offset ≤ lexer.source.utf8ByteSize ∧
      IsSlice lexer.source token.text reading.textStart reading.after.offset
  failed : ∀ e after, lexing.next dropSigil lexer = (.error e, after) → after.Names e

theorem StartsAscii.left (starts : lexing.StartsAscii) (on : lexer.OnBoundary) (dropSigil : Bool) :
    (lexing.next dropSigil lexer).2.OnBoundary := by
  cases made : lexing.reading? dropSigil lexer with
  | none =>
    rw [next_snd_of_reading?_eq_none made]
    exact on.start lexing
  | some reading =>
    rw [next_of_reading? made]
    exact (starts.clean on made).after

theorem StartsAscii.failed (starts : lexing.StartsAscii) (on : lexer.OnBoundary) {e : LexError}
    (read : lexing.next dropSigil lexer = (.error e, after)) : after.Names e := by
  cases made : lexing.reading? dropSigil lexer with
  | none =>
    rcases next_of_reading?_eq_none made with same | ⟨more, same⟩
    · cases read.symm.trans same
    · cases read.symm.trans same
      exact Lexer.names_errorAt (on.start lexing) (Lexer.source_ne_empty_of_rest more) _
  | some reading =>
    obtain ⟨failed, rfl⟩ := (next_eq_error_iff made).mp read
    exact (starts.clean on made).names failed

theorem StartsAscii.safe (starts : lexing.StartsAscii) (on : lexer.OnBoundary) (dropSigil : Bool) :
    lexing.Safe dropSigil lexer where
  entered := on
  left := starts.left on dropSigil
  sliced reading token made read := by
    have clean := starts.clean on made
    have same : reading.before.source = lexer.source := (reaches_of_reading? made).source_eq
    have slice := (reading.sound.reads token read).2.2 fun _ => clean.isWhole
    rw [same] at slice
    exact ⟨slice.isValid_start, slice.isValid_stop, slice.le, Utf8.le_of_isValid slice.isValid_stop, slice⟩
  failed e after read := starts.failed on read

theorem StartsAscii.onBoundary (starts : lexing.StartsAscii) (enters : lexing.Enters dropSigil first lexer)
    (on : first.OnBoundary) : lexer.OnBoundary := by
  induction enters with
  | here lexer => exact on
  | onward read _ ih =>
    have left := starts.left on dropSigil
    rw [read] at left
    exact ih left

/-- Reading the tokens of a source asks for each at a lexer where that is safe. -/
structure ReadsOnBoundaries (lexing : Lexing) (dropSigil : Bool) (source : String) : Prop where
  safe : ∀ lexer, lexing.Enters dropSigil (.ofSource source) lexer →
    lexer.source = source ∧ lexing.Safe dropSigil lexer
  tokens : ∀ log tokens, ((lexing.tokenize dropSigil source).run log).1 = .ok tokens → ∀ token ∈ tokens,
    ∃ lexer after, lexing.Enters dropSigil (.ofSource source) lexer ∧
      lexing.next dropSigil lexer = (.ok (some token), after)
  failure : ∀ log e, ((lexing.tokenize dropSigil source).run log).1 = .error e →
    ∃ lexer after, lexing.Enters dropSigil (.ofSource source) lexer ∧
      lexing.next dropSigil lexer = (.error e, after)

end Lexing

namespace Dialect

theorem isAscii_of_isOneOf {chars : String} (ascii : (Utf8.encode chars).all isAscii = true) {byte : UInt8}
    (listed : isOneOf chars byte = true) : isAscii byte = true :=
  List.all_eq_true.mp ascii byte (List.contains_iff_mem.mp listed)

theorem startsAscii (d : Dialect) : d.lexing.StartsAscii := by
  intro byte decoder chosen
  cases d with
  | arithmetic =>
    unfold lexing Lexing.arithmetic at chosen
    dsimp only at chosen
    split at chosen
    · rename_i listed
      exact isAscii_of_isOneOf (by decide) listed
    split at chosen
    · rename_i digit
      exact Ascii.isAscii_of_isNameByte (Ascii.isNameByte_of_isDigit digit)
    split at chosen
    · rename_i sigil
      rw [sigil]
      rfl
    · cases chosen
  | logical =>
    unfold lexing Lexing.logical at chosen
    dsimp only at chosen
    split at chosen
    · rename_i listed
      exact isAscii_of_isOneOf (by decide) listed
    split at chosen
    · rename_i listed
      exact isAscii_of_isOneOf (by decide) listed
    split at chosen
    · rename_i sigil
      rw [sigil]
      rfl
    · cases chosen

/-- The built-in lexings are safe on every source. -/
theorem readsOnBoundaries (d : Dialect) (dropSigil : Bool) (source : String) :
    d.lexing.ReadsOnBoundaries dropSigil source := by
  obtain ⟨ending, events, lexes⟩ := d.lexing.exists_lexes dropSigil (.ofSource source)
  have read : ∀ log, ((d.lexing.tokenize dropSigil source).run log).1 = ending.1 :=
    (Lexing.emits_tokenize lexes).value_eq
  refine { safe := fun lexer enters => ?_, tokens := ?_, failure := ?_ }
  · have on := d.startsAscii.onBoundary enters (Utf8.isValid_zero source)
    exact ⟨enters.reaches.source_eq, d.startsAscii.safe on dropSigil⟩
  · intro log tokens outcome token member
    rw [read log] at outcome
    obtain ⟨lexer, reading, enters, made, result⟩ := Lexing.exists_reading_of_mem lexes outcome member
    exact ⟨lexer, reading.after, enters, (Lexing.next_eq_ok_iff made).mpr ⟨result, rfl⟩⟩
  · intro log e outcome
    rw [read log] at outcome
    exact Lexing.exists_enters_of_error lexes outcome

end Dialect

end Formula
