import Formula.Proofs.Text.Slice
import Formula.Token.Lexer

/-!
# What the decoders do

A decoder that reads a token moves the cursor over the bytes that the token stands for, and one that fails
leaves it in place. Half of a doubled operator is the exception: the cursor stays behind it
(`Lexer.Reading.sound`). Either way the cursor does not leave the source (`Lexer.Reading.reaches`). The inversion
is `Lexer.decodes`, and nothing else here looks into the decoders.
-/

namespace Formula

open Ascii (isAscii)
open Utf8 (IsSlice)

namespace Lexer

/-! ### Moving on -/

/-- The cursor is no further than behind the last byte of the source. -/
def Inside (lexer : Lexer) : Prop := lexer.offset ≤ lexer.source.utf8ByteSize

theorem inside_ofSource (source : String) : (ofSource source).Inside := Nat.zero_le _

/-- The same source, with the cursor where it was or further on. It has not left the source on the way. -/
structure Reaches (before after : Lexer) : Prop where
  source_eq : after.source = before.source
  offset_le : before.offset ≤ after.offset
  inside : before.Inside → after.Inside

theorem Reaches.refl (lexer : Lexer) : lexer.Reaches lexer := ⟨rfl, Nat.le_refl _, id⟩

theorem Reaches.trans {before middle after : Lexer} (first : before.Reaches middle)
    (second : middle.Reaches after) : before.Reaches after where
  source_eq := second.source_eq.trans first.source_eq
  offset_le := Nat.le_trans first.offset_le second.offset_le
  inside := second.inside ∘ first.inside

theorem Reaches.offset_le_size {before after : Lexer} (reaches : before.Reaches after) (inside : before.Inside) :
    after.offset ≤ before.source.utf8ByteSize := by
  rw [← reaches.source_eq]
  exact reaches.inside inside

/-- The cursor stays inside if it moves over bytes that are ahead. -/
theorem reaches_advance {lexer : Lexer} {count : Nat} (ahead : count ≤ lexer.rest.length) :
    lexer.Reaches (lexer.advance count) where
  source_eq := rfl
  offset_le := Nat.le_add_right _ _
  inside inside := by
    rw [length_rest] at ahead
    rw [Inside, source_advance, offset_advance, Nat.add_comm]
    exact Nat.add_le_of_le_sub inside ahead

theorem reaches_skipBlanks (lexer : Lexer) : lexer.Reaches lexer.skipBlanks :=
  reaches_advance (List.takeWhile_prefix _).length_le

/-! ### What a decoder does -/

/-- How many of the bytes that a decoder passes are left out of the text: a dropped sigil. -/
def hidden (dropSigil : Bool) : Decoder → Nat
  | .var => if dropSigil then 1 else 0
  | .op | .int | .logic => 0

/-- All that asking a decoder can come to. None goes for more bytes than are ahead. -/
inductive Decodes (lexer : Lexer) (dropSigil : Bool) (decoder : Decoder) : Result Token → Prop where
  | accepts (kind : Kind) {count : Nat} (moves : 0 < count) (inside : count ≤ lexer.rest.length)
      (shows : hidden dropSigil decoder ≤ count)
      (ascii : decoder = .op ∨ decoder = .int ∨ (∀ byte ∈ lexer.current?, isAscii byte = true) →
        ∀ byte ∈ lexer.rest.take count, isAscii byte = true) :
      Decodes lexer dropSigil decoder (lexer.accept kind count (hidden dropSigil decoder))
  | refuses (atEnd : decoder = .logic → lexer.rest = []) : Decodes lexer dropSigil decoder lexer.refuse
  | halves (logic : decoder = .logic) (more : lexer.rest ≠ []) :
      Decodes lexer dropSigil decoder (.error ((lexer.advance 1).errorAt lexer.offset), lexer.advance 1)

theorem isAscii_of_mem_take {test : UInt8 → Bool} (ascii : ∀ byte, test byte = true → isAscii byte = true)
    {bytes : List UInt8} {byte : UInt8} (member : byte ∈ bytes.take (bytes.takeWhile test).length) :
    isAscii byte = true := by
  rw [← List.prefix_iff_eq_take.mp (List.takeWhile_prefix test)] at member
  exact ascii byte (List.all_eq_true.mp List.all_takeWhile byte member)

variable {lexer : Lexer} {dropSigil : Bool}

theorem decodes_op (lexer : Lexer) (dropSigil : Bool) : lexer.Decodes dropSigil .op lexer.decodeOp := by
  unfold decodeOp
  split
  · rename_i byte rest ahead
    split
    · rename_i ascii
      refine .accepts .op Nat.one_pos ?_ (Nat.zero_le _) fun _ => ?_
      · rw [ahead]
        exact Nat.succ_le_succ (Nat.zero_le _)
      · rw [ahead]
        simpa using ascii
    · exact .refuses nofun
  · exact .refuses nofun

theorem decodes_int (lexer : Lexer) (dropSigil : Bool) : lexer.Decodes dropSigil .int lexer.decodeInt := by
  unfold decodeInt
  split
  · exact .refuses nofun
  · rename_i count nonzero
    refine .accepts .int (Nat.pos_of_ne_zero nonzero) ?_ (Nat.zero_le _) fun _ byte member => ?_
    · exact (List.takeWhile_prefix _).length_le
    · refine isAscii_of_mem_take (fun byte digit => ?_) member
      exact Ascii.isAscii_of_isNameByte (Ascii.isNameByte_of_isDigit digit)

theorem decodes_logic (lexer : Lexer) (dropSigil : Bool) :
    lexer.Decodes dropSigil .logic lexer.decodeLogic := by
  unfold decodeLogic
  split
  · rename_i first rest ahead
    split
    · rename_i doubled
      obtain ⟨more, rfl⟩ := List.head?_eq_some_iff.mp doubled
      refine .accepts .op Nat.two_pos ?_ (Nat.zero_le _) fun starts => ?_
      · rw [ahead]
        exact Nat.succ_le_succ (Nat.succ_le_succ (Nat.zero_le _))
      · have ascii : isAscii first = true := by simpa [current?, ahead] using starts
        rw [ahead]
        simpa using ascii
    · exact .halves rfl (by rw [ahead]; exact List.cons_ne_nil _ _)
  · rename_i ended
    exact .refuses fun _ => ended

theorem decodes_var (lexer : Lexer) (dropSigil : Bool) :
    lexer.Decodes dropSigil .var (lexer.decodeVar dropSigil) := by
  unfold decodeVar
  split
  · rename_i first next rest ahead
    refine .accepts .var (Nat.succ_pos _) ?_ ?_ fun starts => ?_
    · rw [ahead]
      exact Nat.succ_le_succ (List.takeWhile_prefix _).length_le
    · rw [hidden]
      split
      · exact Nat.succ_le_succ (Nat.zero_le _)
      · exact Nat.zero_le _
    · have ascii : isAscii first = true := by simpa [current?, ahead] using starts
      rw [ahead]
      intro byte member
      rcases List.mem_cons.mp member with rfl | named
      · exact ascii
      · exact isAscii_of_mem_take (fun byte => Ascii.isAscii_of_isNameByte) named
  · exact .refuses nofun

theorem decodes (lexer : Lexer) (dropSigil : Bool) (decoder : Decoder) :
    lexer.Decodes dropSigil decoder (lexer.decode dropSigil decoder) := by
  cases decoder with
  | op => exact lexer.decodes_op dropSigil
  | int => exact lexer.decodes_int dropSigil
  | logic => exact lexer.decodes_logic dropSigil
  | var => exact lexer.decodes_var dropSigil

/-! ### What a decoder reads -/

theorem rest_ne_nil_iff : lexer.rest ≠ [] ↔ lexer.offset < lexer.source.utf8ByteSize := by
  rw [← List.length_pos_iff, length_rest]
  omega

theorem isValid_of_ascii {count : Nat} (moves : 0 < count) (inside : count ≤ lexer.rest.length)
    (ascii : ∀ byte ∈ lexer.rest.take count, isAscii byte = true) :
    String.Pos.Raw.IsValid lexer.source ⟨lexer.offset⟩ ∧
      String.Pos.Raw.IsValid lexer.source ⟨lexer.offset + count⟩ := by
  obtain ⟨byte, rest, ahead⟩ := List.exists_cons_of_length_pos (Nat.lt_of_lt_of_le moves inside)
  have first : byte ∈ lexer.rest.take count := by
    rw [ahead, List.take_cons moves]
    exact List.mem_cons_self
  have starts : String.Pos.Raw.IsValid lexer.source ⟨lexer.offset⟩ :=
    Utf8.isValid_of_ascii (lexer.rest_eq.symm.trans ahead) (ascii byte first)
  rw [length_rest] at inside
  rw [lexer.rest_eq] at ascii
  refine ⟨starts, Utf8.isValid_add_of_ascii starts ?_ ascii⟩
  omega

theorem accept_of_isSlice {kind : Kind} {count hidden : Nat} {piece : String}
    (slice : IsSlice lexer.source piece (lexer.offset + hidden) (lexer.offset + count)) :
    lexer.accept kind count hidden = (.ok ⟨piece, kind, lexer.offset⟩, lexer.advance count) := by
  have bytes : (lexer.rest.take count).drop hidden = Utf8.encode piece := by
    rw [slice.encode_eq, lexer.rest_eq, List.take_drop, List.drop_drop]
  rw [accept, bytes, Utf8.decode?_encode]
  rfl

/-- A decoder put to work. -/
structure Reading where
  before : Lexer
  decoder : Decoder
  dropSigil : Bool

namespace Reading

def result (reading : Reading) : Except LexError Token :=
  (reading.before.decode reading.dropSigil reading.decoder).1

def after (reading : Reading) : Lexer := (reading.before.decode reading.dropSigil reading.decoder).2

/-- Where the text of the token starts in the source. -/
def textStart (reading : Reading) : Nat :=
  reading.before.offset + hidden reading.dropSigil reading.decoder

/-- The text starts and ends between characters. -/
def IsWhole (reading : Reading) : Prop :=
  String.Pos.Raw.IsValid reading.before.source ⟨reading.textStart⟩ ∧
    String.Pos.Raw.IsValid reading.before.source ⟨reading.after.offset⟩

/-- A token stands for what the cursor has moved over, which is something. Behind a failure the cursor is where
it was, or behind half of a doubled operator. Only a doubled operator and a variable may start with any byte, so
it is these that can cut a character. -/
structure Sound (reading : Reading) : Prop where
  source_eq : reading.after.source = reading.before.source
  reads : ∀ token, reading.result = .ok token →
    token.offset = reading.before.offset ∧ reading.before.offset < reading.after.offset ∧
      ((reading.decoder = .logic ∨ reading.decoder = .var → reading.IsWhole) →
        IsSlice reading.before.source token.text reading.textStart reading.after.offset)
  fails : ∀ e, reading.result = .error e →
    reading.after.offset =
      if reading.decoder = .logic ∧ reading.before.offset < reading.before.source.utf8ByteSize then
        reading.before.offset + 1
      else reading.before.offset

theorem isWhole_of_ascii {reading : Reading} (shown : hidden reading.dropSigil reading.decoder = 0)
    {count : Nat} (moves : 0 < count) (inside : count ≤ reading.before.rest.length)
    (after : reading.after = reading.before.advance count)
    (ascii : ∀ byte ∈ reading.before.rest.take count, isAscii byte = true) : reading.IsWhole := by
  rw [IsWhole, textStart, shown, after, offset_advance]
  exact isValid_of_ascii moves inside ascii

theorem exists_decodes (reading : Reading) : ∃ outcome,
    reading.before.Decodes reading.dropSigil reading.decoder outcome ∧
      reading.result = outcome.1 ∧ reading.after = outcome.2 :=
  ⟨_, reading.before.decodes reading.dropSigil reading.decoder, rfl, rfl⟩

theorem reaches (reading : Reading) : reading.before.Reaches reading.after := by
  obtain ⟨outcome, decodes, -, after⟩ := reading.exists_decodes
  rw [after]
  cases decodes with
  | accepts kind moves inside => exact reaches_advance inside
  | refuses atEnd => exact .refl _
  | halves logic more => exact reaches_advance (List.length_pos_iff.mpr more)

theorem sound (reading : Reading) : reading.Sound := by
  obtain ⟨outcome, decodes, result, after⟩ := reading.exists_decodes
  cases decodes with
  | @accepts kind count moves inside shows ascii =>
    have passed : reading.after.offset = reading.before.offset + count := by
      rw [after]
      rfl
    refine { source_eq := reading.reaches.source_eq, reads := fun token read => ?_, fails := fun e failed => ?_ }
    · rw [result] at read
      refine ⟨?_, by omega, fun whole => ?_⟩
      · cases read
        rfl
      · obtain ⟨starts, stops⟩ : reading.IsWhole := by
          cases decoder : reading.decoder with
          | op => exact isWhole_of_ascii (by rw [decoder]; rfl) moves inside after (ascii (.inl decoder))
          | int =>
            exact isWhole_of_ascii (by rw [decoder]; rfl) moves inside after (ascii (.inr (.inl decoder)))
          | logic => exact whole (.inl decoder)
          | var => exact whole (.inr decoder)
        have le : reading.textStart ≤ reading.after.offset := by
          rw [passed]
          exact Nat.add_le_add_left shows _
        obtain ⟨piece, slice⟩ := Utf8.exists_isSlice starts stops le
        have shown := slice
        rw [textStart, passed] at shown
        rw [accept_of_isSlice shown] at read
        cases read
        exact slice
    · rw [result] at failed
      cases failed
  | refuses atEnd =>
    refine { source_eq := reading.reaches.source_eq, reads := fun token read => ?_, fails := fun e failed => ?_ }
    · rw [result] at read
      cases read
    · rw [if_neg, after]
      · rfl
      · rintro ⟨logic, more⟩
        exact rest_ne_nil_iff.mpr more (atEnd logic)
  | halves logic more =>
    refine { source_eq := reading.reaches.source_eq, reads := fun token read => ?_, fails := fun e failed => ?_ }
    · rw [result] at read
      cases read
    · rw [if_pos ⟨logic, rest_ne_nil_iff.mp more⟩, after]
      rfl

end Reading

end Lexer

end Formula
