import Formula.Proofs.Text.Characters
import Formula.Token.Lexer

/-!
# Cursors between texts

A lexer whose cursor stands between two texts has read the first and has the second ahead
(`Lexer.between`). Reading the text that is next moves the cursor behind it, and the lexer stands between
texts again: the laws here say which token each decoder reads there, and which character a failure names.
-/

namespace Formula.Lexer

theorem eq_of_offset_eq {first second : Lexer} (source : first.source = second.source)
    (offset : first.offset = second.offset) : first = second := by
  obtain ⟨source₁, offset₁, rest₁, rest_eq₁⟩ := first
  obtain ⟨source₂, offset₂, rest₂, rest_eq₂⟩ := second
  dsimp only at source offset rest_eq₁ rest_eq₂
  subst source offset rest_eq₁ rest_eq₂
  rfl

/-- A lexer that has read `front` and has `behind` ahead of it. -/
def between (front behind : String) : Lexer where
  source := front ++ behind
  offset := front.utf8ByteSize
  rest := Utf8.encode behind
  rest_eq := by rw [Utf8.encode_append, List.drop_left' (Utf8.length_encode front)]

variable {front behind : String}

@[simp] theorem source_between : (between front behind).source = front ++ behind := rfl

@[simp] theorem offset_between : (between front behind).offset = front.utf8ByteSize := rfl

@[simp] theorem rest_between : (between front behind).rest = Utf8.encode behind := rfl

theorem ofSource_eq_between (source : String) : ofSource source = between "" source :=
  eq_of_offset_eq String.empty_append.symm rfl

theorem advance_between (front text behind : String) :
    (between front (text ++ behind)).advance text.utf8ByteSize = between (front ++ text) behind := by
  refine eq_of_offset_eq String.append_assoc.symm ?_
  rw [offset_advance, offset_between, offset_between, String.utf8ByteSize_append]

theorem skipBlanks_between {gap behind : String} (blank : ∀ c ∈ gap.toList, Ascii.isBlankChar c = true)
    (stops : ∀ c ∈ behind.toList.head?, Ascii.isBlankChar c = false) (front : String) :
    (between front (gap ++ behind)).skipBlanks = between (front ++ gap) behind := by
  rw [skipBlanks, rest_between, Utf8.takeWhile_encode Ascii.tells_isBlank blank stops, Utf8.length_encode,
    advance_between]

/-! ### What a failure names -/

theorem offendingCharacter_between (front : String) (c : Char) (behind : String) :
    (between front (String.singleton c ++ behind)).offendingCharacter = c := by
  rw [offendingCharacter, rest_between, Utf8.decode?_encode, Option.bind_some, String.toList_append,
    String.toList_singleton]
  rfl

theorem offendingCharacter_end (front : String) (c : Char) :
    (between (front ++ String.singleton c) "").offendingCharacter = c := by
  have none : (Utf8.decode? (Utf8.encode "")).bind (fun text => text.toList.head?) = Option.none := by
    rw [Utf8.decode?_encode]
    rfl
  rw [offendingCharacter, rest_between, none, source_between, String.append_empty, String.toList_append,
    String.toList_singleton, List.getLast?_append]
  rfl

theorem refuse_between {α : Type} (front : String) (c : Char) (behind : String) :
    ((between front (String.singleton c ++ behind)).refuse : Result α) =
      (.error ⟨c, front.utf8ByteSize, front ++ (String.singleton c ++ behind)⟩,
        between front (String.singleton c ++ behind)) := by
  rw [refuse, errorHere, errorAt, offendingCharacter_between]
  rfl

/-! ### What a decoder reads -/

/-- A token may leave the start of what is read out of its text. -/
theorem accept_between (front hidden shown behind : String) (kind : Kind) :
    (between front (hidden ++ shown ++ behind)).accept kind (hidden ++ shown).utf8ByteSize
        hidden.utf8ByteSize =
      (.ok ⟨shown, kind, front.utf8ByteSize⟩, between (front ++ (hidden ++ shown)) behind) := by
  have text : ((Utf8.encode (hidden ++ shown ++ behind)).take (hidden ++ shown).utf8ByteSize).drop
      hidden.utf8ByteSize = Utf8.encode shown := by
    rw [Utf8.encode_append, List.take_left' (Utf8.length_encode _), Utf8.encode_append,
      List.drop_left' (Utf8.length_encode _)]
  rw [accept, rest_between, text, Utf8.decode?_encode, advance_between]
  rfl

theorem accept_text_between (front text behind : String) (kind : Kind) :
    (between front (text ++ behind)).accept kind text.utf8ByteSize 0 =
      (.ok ⟨text, kind, front.utf8ByteSize⟩, between (front ++ text) behind) := by
  have accepted := accept_between front "" text behind kind
  rwa [String.empty_append] at accepted

theorem decodeOp_between {c : Char} (ascii : c.toNat < 128) (front behind : String) :
    (between front (String.singleton c ++ behind)).decodeOp =
      (.ok ⟨String.singleton c, .op, front.utf8ByteSize⟩, between (front ++ String.singleton c) behind) := by
  have isAscii : Ascii.isAscii (Utf8.firstByte c) = true := by
    have below := Utf8.toNat_toUInt8_of_ascii ascii
    rw [Utf8.firstByte_of_ascii ascii, Ascii.isAscii, decide_eq_true_eq, UInt8.lt_iff_toNat_lt, below]
    exact ascii
  have accepted := accept_text_between front (String.singleton c) behind .op
  rw [Utf8.utf8ByteSize_singleton ascii] at accepted
  rw [decodeOp, rest_between, Utf8.encode_cons_of_ascii ascii]
  dsimp only
  rw [if_pos isAscii, accepted]

theorem decodeInt_between {digits behind : String} (nonempty : digits ≠ "")
    (all : ∀ c ∈ digits.toList, c.isDigit = true) (stops : ∀ c ∈ behind.toList.head?, c.isDigit = false)
    (front : String) :
    (between front (digits ++ behind)).decodeInt =
      (.ok ⟨digits, .int, front.utf8ByteSize⟩, between (front ++ digits) behind) := by
  rw [decodeInt, rest_between, Utf8.takeWhile_encode Ascii.tells_isDigit all stops, Utf8.length_encode,
    ← accept_text_between]
  split
  · rename_i none
    exact (nonempty (String.utf8ByteSize_eq_zero_iff.mp none)).elim
  · rfl

theorem decodeLogic_between {c : Char} (ascii : c.toNat < 128) (front behind : String) :
    (between front (String.singleton c ++ String.singleton c ++ behind)).decodeLogic =
      (.ok ⟨String.singleton c ++ String.singleton c, .op, front.utf8ByteSize⟩,
        between (front ++ (String.singleton c ++ String.singleton c)) behind) := by
  have bytes : Utf8.encode (String.singleton c ++ String.singleton c ++ behind) =
      Utf8.firstByte c :: Utf8.firstByte c :: Utf8.encode behind := by
    rw [String.append_assoc, Utf8.encode_cons_of_ascii ascii, Utf8.encode_cons_of_ascii ascii]
  have accepted := accept_text_between front (String.singleton c ++ String.singleton c) behind .op
  rw [String.utf8ByteSize_append, Utf8.utf8ByteSize_singleton ascii] at accepted
  rw [decodeLogic, rest_between, bytes]
  dsimp only
  rw [if_pos (by rfl), accepted]

/-- The cursor stays behind a character that is not doubled. -/
theorem decodeLogic_between_of_ne {c : Char} (ascii : c.toNat < 128) {behind : String}
    (single : behind.toList.head? ≠ some c) (front : String) :
    (between front (String.singleton c ++ behind)).decodeLogic =
      (.error ((between (front ++ String.singleton c) behind).errorAt front.utf8ByteSize),
        between (front ++ String.singleton c) behind) := by
  have different : (Utf8.encode behind).head? ≠ some (Utf8.firstByte c) := by
    rw [Utf8.head?_encode, ne_eq, Option.map_eq_some_iff]
    rintro ⟨other, starts, same⟩
    rw [starts, Utf8.eq_of_firstByte_eq ascii same] at single
    exact single rfl
  have advanced := advance_between front (String.singleton c) behind
  rw [Utf8.utf8ByteSize_singleton ascii] at advanced
  rw [decodeLogic, rest_between, Utf8.encode_cons_of_ascii ascii]
  dsimp only
  rw [if_neg different, advanced, offset_between]

theorem decodeLogic_between_of_single {c next : Char} (ascii : c.toNat < 128) (different : next ≠ c)
    (front rest : String) :
    (between front (String.singleton c ++ (String.singleton next ++ rest))).decodeLogic =
      (.error ⟨next, front.utf8ByteSize, front ++ (String.singleton c ++ (String.singleton next ++ rest))⟩,
        between (front ++ String.singleton c) (String.singleton next ++ rest)) := by
  have single : (String.singleton next ++ rest).toList.head? ≠ some c := by
    rw [head?_singleton_append]
    exact fun same => different (Option.some.inj same)
  rw [decodeLogic_between_of_ne ascii single, errorAt, offendingCharacter_between, source_between,
    String.append_assoc]

theorem decodeLogic_end {c : Char} (ascii : c.toNat < 128) (front : String) :
    (between front (String.singleton c)).decodeLogic =
      (.error ⟨c, front.utf8ByteSize, front ++ String.singleton c⟩,
        between (front ++ String.singleton c) "") := by
  have nothing : ("" : String).toList.head? ≠ some c := nofun
  have failed := decodeLogic_between_of_ne ascii nothing front
  rwa [errorAt, offendingCharacter_end, source_between, String.append_empty, String.append_empty] at failed

/-- What is shown of a variable: its name, behind the sigil unless that is dropped. -/
def shownName (dropSigil : Bool) (name : String) : String := if dropSigil then name else "$" ++ name

theorem decodeVar_between {name behind : String} (all : ∀ c ∈ name.toList, Ascii.isNameChar c = true)
    (stops : ∀ c ∈ behind.toList.head?, Ascii.isNameChar c = false) (more : name ++ behind ≠ "")
    (dropSigil : Bool) (front : String) :
    (between front ("$" ++ name ++ behind)).decodeVar dropSigil =
      (.ok ⟨shownName dropSigil name, .var, front.utf8ByteSize⟩, between (front ++ ("$" ++ name)) behind) := by
  have run := Utf8.takeWhile_encode Ascii.tells_isNameByte all stops
  have bytes : Utf8.encode ("$" ++ name ++ behind) = Ascii.sigil :: Utf8.encode (name ++ behind) := by
    rw [String.append_assoc, Utf8.encode_append]
    rfl
  have count : (Utf8.encode name).length + 1 = ("$" ++ name).utf8ByteSize := by
    rw [Utf8.length_encode, String.utf8ByteSize_append, Nat.add_comm]
    rfl
  rw [decodeVar, rest_between, bytes]
  cases first : Utf8.encode (name ++ behind) with
  | nil => exact (more (Utf8.encode_inj.mp first)).elim
  | cons next rest =>
    dsimp only
    rw [← first, run, count]
    cases dropSigil with
    | true => exact accept_between front "$" name behind .var
    | false => exact accept_text_between front ("$" ++ name) behind .var

theorem decodeVar_end (dropSigil : Bool) (front : String) :
    (between front "$").decodeVar dropSigil =
      (.error ⟨'$', front.utf8ByteSize, front ++ "$"⟩, between front "$") := by
  have sigil : "$" = String.singleton '$' ++ "" := by decide
  have refused : (between front "$").decodeVar dropSigil = (between front "$").refuse := rfl
  rw [refused, sigil, refuse_between]

end Formula.Lexer
