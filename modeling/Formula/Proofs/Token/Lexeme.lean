import Formula.Proofs.Token.Cursor
import Formula.Token.Lexing

/-!
# Lexemes

The two built-in lexings are one scheme over different operators (`Dialect`). A lexeme is the text of one
token. A text that is not blank starts with a blank gap and a lexeme that is whole before what follows, or
with a blank gap and a fault (`exists_chunk_or_fault`). The lexing reads the lexeme (`next_chunk`) or fails
at the fault (`exists_next_fault`).
-/

namespace Formula

open Ascii (isBlankChar isNameChar)

inductive Dialect where
  | arithmetic | logical
  deriving DecidableEq, Repr

namespace Dialect

def lexing : Dialect → Lexing
  | arithmetic => .arithmetic
  | logical => .logical

/-- The operators that a table may let join operands. -/
def infixes : Dialect → List String
  | arithmetic => ["(", "+", "-", "*", "/", "^", "%"]
  | logical => ["(", "&&", "||"]

def operators (d : Dialect) : List String := ")" :: d.infixes

def hasIntegers : Dialect → Bool
  | arithmetic => true
  | logical => false

/-- The text of a token of some kind. -/
inductive Lexeme (d : Dialect) : Kind → String → Prop where
  | op {text : String} (listed : text ∈ d.operators) : Lexeme d .op text
  | int {text : String} (known : d.hasIntegers = true) (nonempty : text ≠ "")
      (digits : ∀ c ∈ text.toList, c.isDigit = true) : Lexeme d .int text
  | var {name : String} (letters : ∀ c ∈ name.toList, isNameChar c = true) : Lexeme d .var ("$" ++ name)

/-! ### The first character -/

/-- The characters that are operators. -/
def singles : Dialect → List Char
  | arithmetic => ['(', ')', '+', '-', '*', '/', '^', '%']
  | logical => ['(', ')']

/-- The characters that are operators when doubled. -/
def doubles : Dialect → List Char
  | arithmetic => []
  | logical => ['&', '|']

theorem mem_operators_iff {d : Dialect} {text : String} :
    text ∈ d.operators ↔ (∃ c ∈ d.singles, text = String.singleton c) ∨
      ∃ c ∈ d.doubles, text = String.singleton c ++ String.singleton c := by
  constructor
  · cases d with
    | arithmetic => revert text; decide
    | logical => revert text; decide
  · rintro (⟨c, member, rfl⟩ | ⟨c, member, rfl⟩)
    · cases d with
      | arithmetic => revert c; decide
      | logical => revert c; decide
    · cases d with
      | arithmetic => revert c; decide
      | logical => revert c; decide

/-- A decoder reads the tokens that start with a character. -/
inductive Starts (d : Dialect) : Char → Decoder → Prop where
  | op {c : Char} (member : c ∈ d.singles) : Starts d c .op
  | logic {c : Char} (member : c ∈ d.doubles) : Starts d c .logic
  | int {c : Char} (known : d.hasIntegers = true) (digit : c.isDigit = true) : Starts d c .int
  | var : Starts d '$' .var

theorem ascii_of_mem_singles {d : Dialect} {c : Char} (member : c ∈ d.singles) : c.toNat < 128 := by
  cases d with
  | arithmetic => revert c; decide
  | logical => revert c; decide

theorem ascii_of_mem_doubles {d : Dialect} {c : Char} (member : c ∈ d.doubles) : c.toNat < 128 := by
  cases d with
  | arithmetic => revert c; decide
  | logical => revert c; decide

theorem isOneOf_firstByte {chars : String} (ascii : ∀ c ∈ chars.toList, c.toNat < 128) (c : Char) :
    isOneOf chars (Utf8.firstByte c) = true ↔ c ∈ chars.toList := by
  rw [isOneOf, List.contains_iff_mem, Utf8.encode_eq_flatMap, List.mem_flatMap]
  constructor
  · rintro ⟨other, member, same⟩
    rw [Utf8.utf8EncodeChar_of_ascii (ascii other member), List.mem_singleton,
      ← Utf8.firstByte_of_ascii (ascii other member)] at same
    rwa [Utf8.eq_of_firstByte_eq (ascii other member) same]
  · intro member
    refine ⟨c, member, ?_⟩
    obtain ⟨more, same⟩ := Utf8.exists_utf8EncodeChar_eq c
    rw [same]
    exact List.mem_cons_self

theorem firstByte_eq_sigil_iff {c : Char} : Utf8.firstByte c = Ascii.sigil ↔ c = '$' := by
  constructor
  · exact fun same => Utf8.eq_of_firstByte_eq (by decide) same
  · rintro rfl
    rfl

theorem arithmetic_single_iff (c : Char) :
    isOneOf "()+-*/^%" (Utf8.firstByte c) = true ↔ c ∈ arithmetic.singles :=
  isOneOf_firstByte (by decide) c

theorem logical_single_iff (c : Char) : isOneOf "()" (Utf8.firstByte c) = true ↔ c ∈ logical.singles :=
  isOneOf_firstByte (by decide) c

theorem logical_double_iff (c : Char) : isOneOf "&|" (Utf8.firstByte c) = true ↔ c ∈ logical.doubles :=
  isOneOf_firstByte (by decide) c

theorem action_of_starts {d : Dialect} {c : Char} {decoder : Decoder} (starts : d.Starts c decoder) :
    d.lexing.action (Utf8.firstByte c) = .decode decoder := by
  cases starts with
  | op member =>
    cases d with
    | arithmetic => exact if_pos ((arithmetic_single_iff c).mpr member)
    | logical => exact if_pos ((logical_single_iff c).mpr member)
  | logic member =>
    cases d with
    | arithmetic => cases member
    | logical =>
      -- No character is tested for twice, so the tests that come first fail.
      have other : c ∉ logical.singles := by revert c; decide
      exact (if_neg (mt (logical_single_iff c).mp other)).trans (if_pos ((logical_double_iff c).mpr member))
  | int known digit =>
    cases d with
    | arithmetic =>
      have single : ∀ c ∈ arithmetic.singles, c.isDigit = false := by decide
      have other : c ∉ arithmetic.singles := by
        intro member
        rw [single c member] at digit
        cases digit
      refine (if_neg (mt (arithmetic_single_iff c).mp other)).trans (if_pos ?_)
      rw [Ascii.tells_isDigit.firstByte, digit]
    | logical => cases known
  | var =>
    cases d with
    | arithmetic => rfl
    | logical => rfl

theorem action_of_unread {d : Dialect} {c : Char} (unread : ∀ decoder, ¬ d.Starts c decoder) :
    d.lexing.action (Utf8.firstByte c) = .fail := by
  have single : c ∉ d.singles := fun member => unread .op (.op member)
  have double : c ∉ d.doubles := fun member => unread .logic (.logic member)
  have sigil : Utf8.firstByte c ≠ Ascii.sigil := by
    rw [ne_eq, firstByte_eq_sigil_iff]
    rintro rfl
    exact unread .var .var
  cases d with
  | arithmetic =>
    have digit : Ascii.isDigit (Utf8.firstByte c) ≠ true := by
      rw [Ascii.tells_isDigit.firstByte]
      exact fun digit => unread .int (.int rfl digit)
    exact (if_neg (mt (arithmetic_single_iff c).mp single)).trans ((if_neg digit).trans (if_neg sigil))
  | logical =>
    exact (if_neg (mt (logical_single_iff c).mp single)).trans
      ((if_neg (mt (logical_double_iff c).mp double)).trans (if_neg sigil))

theorem not_isBlankChar_of_starts {d : Dialect} {c : Char} {decoder : Decoder} (starts : d.Starts c decoder) :
    isBlankChar c = false := by
  cases starts with
  | op member =>
    cases d with
    | arithmetic => revert c; decide
    | logical => revert c; decide
  | logic member =>
    cases d with
    | arithmetic => cases member
    | logical => revert c; decide
  | int known digit =>
    rw [← Bool.not_eq_true, isBlankChar, List.contains_iff_mem]
    intro blank
    have other : ∀ c ∈ [' ', '\t', '\n', '\x0B', '\x0C', '\r'], c.isDigit = false := by decide
    rw [other c blank] at digit
    cases digit
  | var => rfl

section Next

variable {d : Dialect} {dropSigil : Bool} {gap ahead : String} {c : Char} {decoder : Decoder}
  (blank : ∀ c ∈ gap.toList, isBlankChar c = true)
include blank

theorem start_between (stops : ∀ c ∈ ahead.toList.head?, isBlankChar c = false) (front : String) :
    d.lexing.start (.between front (gap ++ ahead)) = .between (front ++ gap) ahead := by
  rw [Lexing.start, if_pos (by cases d <;> rfl), Lexer.skipBlanks_between blank stops]

theorem next_blank (front : String) :
    d.lexing.next dropSigil (.between front gap) = (.ok none, .between (front ++ gap) "") := by
  have started : d.lexing.start (.between front (gap ++ "")) = .between (front ++ gap) "" := by
    refine start_between blank ?_ front
    rintro _ ⟨⟩
  rw [String.append_empty] at started
  rw [Lexing.next, started]
  rfl

variable (first : ahead.toList.head? = some c)
include first

theorem next_between (stops : isBlankChar c = false) (front : String) :
    d.lexing.next dropSigil (.between front (gap ++ ahead)) =
      match d.lexing.action (Utf8.firstByte c) with
      | .decode decoder =>
        match (Lexer.between (front ++ gap) ahead).decode dropSigil decoder with
        | (.ok token, after) => (.ok (some token), after)
        | (.error e, after) => (.error e, after)
      | .stop => (.ok none, .between (front ++ gap) ahead)
      | .fail => (Lexer.between (front ++ gap) ahead).refuse := by
  have notBlank : ∀ other ∈ ahead.toList.head?, isBlankChar other = false := by
    rw [first]
    rintro _ ⟨⟩
    exact stops
  have current : (Lexer.between (front ++ gap) ahead).current? = some (Utf8.firstByte c) := by
    rw [Lexer.current?, Lexer.rest_between, Utf8.head?_encode, first, Option.map_some]
  rewrite [Lexing.next, start_between blank notBlank, current]
  rfl

theorem next_decode (starts : d.Starts c decoder) {front : String} {token : Token} {after : Lexer}
    (read : (Lexer.between (front ++ gap) ahead).decode dropSigil decoder = (.ok token, after)) :
    d.lexing.next dropSigil (.between front (gap ++ ahead)) = (.ok (some token), after) := by
  rw [next_between blank first (not_isBlankChar_of_starts starts), action_of_starts starts]
  dsimp only
  rw [read]

theorem next_decode_error (starts : d.Starts c decoder) {front : String} {e : LexError} {after : Lexer}
    (read : (Lexer.between (front ++ gap) ahead).decode dropSigil decoder = (.error e, after)) :
    d.lexing.next dropSigil (.between front (gap ++ ahead)) = (.error e, after) := by
  rw [next_between blank first (not_isBlankChar_of_starts starts), action_of_starts starts]
  dsimp only
  rw [read]

end Next

/-! ### One token -/

/-- A lexeme and the blanks before it. -/
structure Chunk (d : Dialect) where
  gap : String
  kind : Kind
  text : String
  blank : ∀ c ∈ gap.toList, isBlankChar c = true
  lexeme : d.Lexeme kind text

namespace Chunk

variable {d : Dialect}

def source (chunk : Chunk d) : String := chunk.gap ++ chunk.text

def shown (dropSigil : Bool) (chunk : Chunk d) : String :=
  match chunk.kind with
  | .var => if dropSigil then String.ofList (chunk.text.toList.drop 1) else chunk.text
  | _ => chunk.text

@[simp] theorem shown_false (chunk : Chunk d) : chunk.shown false = chunk.text := by
  unfold shown
  cases chunk.kind with
  | op => rfl
  | var => rfl
  | int => rfl

def token (dropSigil : Bool) (offset : Nat) (chunk : Chunk d) : Token :=
  ⟨chunk.shown dropSigil, chunk.kind, offset + chunk.gap.utf8ByteSize⟩

/-- The character behind the chunk, if any, does not make its lexeme longer, and a sigil is not the end. -/
def Fits (chunk : Chunk d) (next? : Option Char) : Prop :=
  match chunk.kind with
  | .op => True
  | .int => ∀ c ∈ next?, c.isDigit = false
  | .var => (∀ c ∈ next?, isNameChar c = false) ∧ (chunk.text = "$" → next? ≠ none)

end Chunk

theorem next_chunk {d : Dialect} (dropSigil : Bool) (chunk : Chunk d) {behind : String}
    (fits : chunk.Fits behind.toList.head?) (front : String) :
    d.lexing.next dropSigil (.between front (chunk.source ++ behind)) =
      (.ok (some (chunk.token dropSigil front.utf8ByteSize)), .between (front ++ chunk.source) behind) := by
  obtain ⟨gap, kind, text, blank, lexeme⟩ := chunk
  have reads {c : Char} {decoder : Decoder} (first : (text ++ behind).toList.head? = some c)
      (starts : d.Starts c decoder) {shown : String}
      (read : (Lexer.between (front ++ gap) (text ++ behind)).decode dropSigil decoder =
        (.ok ⟨shown, kind, (front ++ gap).utf8ByteSize⟩, .between (front ++ gap ++ text) behind)) :
      d.lexing.next dropSigil (.between front (gap ++ text ++ behind)) =
        (.ok (some ⟨shown, kind, front.utf8ByteSize + gap.utf8ByteSize⟩),
          .between (front ++ (gap ++ text)) behind) := by
    rw [String.append_assoc, next_decode blank first starts read, String.utf8ByteSize_append,
      String.append_assoc]
  cases lexeme with
  | op listed =>
    rcases mem_operators_iff.mp listed with ⟨c, member, rfl⟩ | ⟨c, member, rfl⟩
    · refine reads ?_ (.op member) (Lexer.decodeOp_between (ascii_of_mem_singles member) _ _)
      simp
    · refine reads ?_ (.logic member) (Lexer.decodeLogic_between (ascii_of_mem_doubles member) _ _)
      simp
  | int known nonempty digits =>
    obtain ⟨c, rest, same⟩ := List.exists_cons_of_ne_nil (mt String.toList_eq_nil_iff.mp nonempty)
    have digit : c.isDigit = true := digits c (by simp [same])
    refine reads ?_ (.int known digit) (Lexer.decodeInt_between nonempty digits fits _)
    simp [same]
  | @var name letters =>
    obtain ⟨stops, ends⟩ := fits
    have more : name ++ behind ≠ "" := by
      intro empty
      obtain ⟨rfl, rfl⟩ := String.append_eq_empty_iff.mp empty
      exact ends rfl rfl
    have read := Lexer.decodeVar_between letters stops more dropSigil (front ++ gap)
    have shown : Lexer.shownName dropSigil name =
        if dropSigil then String.ofList (("$" ++ name).toList.drop 1) else "$" ++ name := by
      rw [Lexer.shownName, String.toList_append]
      simp
    rw [shown] at read
    refine reads ?_ .var read
    rw [String.append_assoc, String.toList_append]
    rfl

/-! ### Where no token can be read -/

/-- No token can be read from the start of a text, and a character is to blame for it. -/
inductive Fault (d : Dialect) : String → Char → Prop where
  | unknown {c : Char} (stops : isBlankChar c = false) (unread : ∀ decoder, ¬ d.Starts c decoder)
      (rest : String) : Fault d (String.singleton c ++ rest) c
  | dangling : Fault d "$" '$'
  | single {c next : Char} (member : c ∈ d.doubles) (different : next ≠ c) (rest : String) :
      Fault d (String.singleton c ++ (String.singleton next ++ rest)) next
  | last {c : Char} (member : c ∈ d.doubles) : Fault d (String.singleton c) c

theorem exists_next_fault {d : Dialect} (dropSigil : Bool) {gap behind : String}
    (blank : ∀ c ∈ gap.toList, isBlankChar c = true) {c : Char} (fault : d.Fault behind c) (front : String) :
    ∃ after, d.lexing.next dropSigil (.between front (gap ++ behind)) =
      (.error ⟨c, (front ++ gap).utf8ByteSize, front ++ gap ++ behind⟩, after) := by
  cases fault with
  | unknown stops unread rest =>
    refine ⟨.between (front ++ gap) (String.singleton c ++ rest), ?_⟩
    rw [next_between blank (by simp) stops, action_of_unread unread]
    exact Lexer.refuse_between _ _ _
  | dangling => exact ⟨_, next_decode_error blank rfl .var (Lexer.decodeVar_end dropSigil _)⟩
  | single member different rest =>
    exact ⟨_, next_decode_error blank (by simp) (.logic member)
      (Lexer.decodeLogic_between_of_single (ascii_of_mem_doubles member) different _ _)⟩
  | last member =>
    exact ⟨_, next_decode_error blank (by simp) (.logic member)
      (Lexer.decodeLogic_end (ascii_of_mem_doubles member) _)⟩

/-! ### Every text is read or has a fault -/

/-- The longest run of some characters at the front of a text. -/
theorem exists_run (holds : Char → Bool) (text : String) :
    ∃ run rest : String, text = run ++ rest ∧ (∀ c ∈ run.toList, holds c = true) ∧
      ∀ c ∈ rest.toList.head?, holds c = false := by
  refine ⟨String.ofList (text.toList.takeWhile holds), String.ofList (text.toList.dropWhile holds), ?_, ?_, ?_⟩
  · rw [← String.ofList_append, List.takeWhile_append_dropWhile, String.ofList_toList]
  · rw [String.toList_ofList]
    exact List.all_eq_true.mp List.all_takeWhile
  · rw [String.toList_ofList]
    intro c first
    have stops := List.head?_dropWhile_not holds text.toList
    rw [Option.mem_def] at first
    rwa [first] at stops

theorem eq_empty_or_exists_first (text : String) :
    text = "" ∨ ∃ (c : Char) (rest : String), text = String.singleton c ++ rest := by
  cases same : text.toList with
  | nil => exact .inl (String.toList_eq_nil_iff.mp same)
  | cons c rest =>
    refine .inr ⟨c, String.ofList rest, ?_⟩
    rw [← String.toList_inj, same, String.toList_append, String.toList_singleton, String.toList_ofList]
    rfl

/-- What is ahead of a lexer is blank, or starts with a lexeme, or has a fault behind blanks. -/
theorem exists_chunk_or_fault (d : Dialect) (text : String) :
    (∀ c ∈ text.toList, isBlankChar c = true) ∨
    (∃ (chunk : Chunk d) (behind : String), text = chunk.source ++ behind ∧ chunk.Fits behind.toList.head?) ∨
    ∃ gap behind c, text = gap ++ behind ∧ (∀ c ∈ gap.toList, isBlankChar c = true) ∧ d.Fault behind c := by
  obtain ⟨gap, ahead, rfl, blank, stops⟩ := exists_run isBlankChar text
  have chunk {kind : Kind} {lexeme behind : String} (valid : d.Lexeme kind lexeme)
      (same : ahead = lexeme ++ behind)
      (fits : (Chunk.mk gap kind lexeme blank valid).Fits behind.toList.head?) :
      ∃ (chunk : Chunk d) (behind : String), gap ++ ahead = chunk.source ++ behind ∧
        chunk.Fits behind.toList.head? := by
    refine ⟨⟨gap, kind, lexeme, blank, valid⟩, behind, ?_, fits⟩
    rw [same, Chunk.source, String.append_assoc]
  rcases eq_empty_or_exists_first ahead with rfl | ⟨c, rest, rfl⟩
  · rw [String.append_empty]
    exact .inl blank
  · refine .inr ?_
    by_cases read : ∃ decoder, d.Starts c decoder
    · obtain ⟨decoder, starts⟩ := read
      cases starts with
      | op member => exact .inl (chunk (.op (mem_operators_iff.mpr (.inl ⟨c, member, rfl⟩))) rfl trivial)
      | logic member =>
        rcases eq_empty_or_exists_first rest with rfl | ⟨next, rest, rfl⟩
        · refine .inr ⟨gap, _, c, rfl, blank, ?_⟩
          rw [String.append_empty]
          exact .last member
        · by_cases same : next = c
          · subst same
            exact .inl (chunk (.op (mem_operators_iff.mpr (.inr ⟨next, member, rfl⟩)))
              String.append_assoc.symm trivial)
          · exact .inr ⟨gap, _, next, rfl, blank, .single member same rest⟩
      | int known digit =>
        obtain ⟨run, behind, rfl, digits, stops⟩ := exists_run Char.isDigit rest
        have valid : d.Lexeme .int (String.singleton c ++ run) := by
          refine .int known (by simp) ?_
          rw [String.toList_append, String.toList_singleton]
          exact List.forall_mem_cons.mpr ⟨digit, digits⟩
        exact .inl (chunk valid String.append_assoc.symm stops)
      | var =>
        rcases eq_empty_or_exists_first rest with rfl | ⟨next, more, nonempty⟩
        · exact .inr ⟨gap, _, '$', rfl, blank, .dangling⟩
        · obtain ⟨name, behind, rfl, letters, stops⟩ := exists_run isNameChar rest
          refine .inl (chunk (.var letters) String.append_assoc.symm ⟨stops, ?_⟩)
          -- A bare sigil with nothing behind it would be all that is ahead.
          intro bare ends
          have noName : name = "" := by simpa using congrArg String.toList bare
          have noMore : behind = "" := by simpa using ends
          rw [noName, noMore, String.append_empty] at nonempty
          simpa using congrArg String.toList nonempty
    · exact .inr ⟨gap, _, c, rfl, blank, .unknown (stops c (by simp)) (not_exists.mp read) rest⟩

end Dialect

end Formula
