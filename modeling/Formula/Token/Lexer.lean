import Formula.Error.Build
import Formula.Text.Ascii
import Formula.Text.Utf8
import Formula.Token

/-!
# The lexer

A cursor over the bytes of a source, and the four decoders that read a token from it. A decoder looks
at the bytes ahead only; which decoder is asked is the lexing's choice (`Formula.Token.Lexing`). All of
them move the cursor by `advance`, so it never goes back. Nothing here would stop it at the end of the
source: it stays inside because none of them goes for more bytes than are ahead. A decoder that succeeds
moves it forward (`rest_lt_of_decode`).
-/

namespace Formula

open Ascii

/-- A source, how many of its bytes have been read, and the bytes still to read. -/
structure Lexer where
  source : String
  offset : Nat
  rest : List UInt8
  rest_eq : rest = (Utf8.encode source).drop offset

namespace Lexer

def ofSource (source : String) : Lexer where
  source := source
  offset := 0
  rest := Utf8.encode source
  rest_eq := rfl

def atEnd (lexer : Lexer) : Bool := lexer.rest.isEmpty

def current? (lexer : Lexer) : Option UInt8 := lexer.rest.head?

theorem length_rest (lexer : Lexer) :
    lexer.rest.length = lexer.source.utf8ByteSize - lexer.offset := by
  rw [lexer.rest_eq, List.length_drop, Utf8.length_encode]

/-- Moves the cursor over `count` bytes. -/
def advance (lexer : Lexer) (count : Nat) : Lexer where
  source := lexer.source
  offset := lexer.offset + count
  rest := lexer.rest.drop count
  rest_eq := by rw [lexer.rest_eq, List.drop_drop]

@[simp] theorem source_advance (lexer : Lexer) (count : Nat) :
    (lexer.advance count).source = lexer.source := rfl

@[simp] theorem rest_advance (lexer : Lexer) (count : Nat) :
    (lexer.advance count).rest = lexer.rest.drop count := rfl

@[simp] theorem offset_advance (lexer : Lexer) (count : Nat) :
    (lexer.advance count).offset = lexer.offset + count := rfl

/-- Moves the cursor to the next byte that is no blank. -/
def skipBlanks (lexer : Lexer) : Lexer :=
  lexer.advance (lexer.rest.takeWhile isBlank).length

theorem length_rest_skipBlanks_le (lexer : Lexer) :
    lexer.skipBlanks.rest.length ≤ lexer.rest.length := by
  simp [skipBlanks]

/-! ### Failures -/

/-- The character under the cursor. When no character starts there, as at the end, it is the last one
of the source. -/
def offendingCharacter (lexer : Lexer) : Char :=
  match (Utf8.decode? lexer.rest).bind (fun text => text.toList.head?) with
  | some c => c
  | none => lexer.source.toList.getLast?.getD '\x00'

/-- A failure at the character under the cursor, placed at `start`. -/
def errorAt (lexer : Lexer) (start : Nat) : LexError :=
  ⟨lexer.offendingCharacter, start, lexer.source⟩

def errorHere (lexer : Lexer) : LexError := lexer.errorAt lexer.offset

/-! ### Decoders -/

/-- What reading gives, and the lexer after it. A failure leaves a lexer too. -/
abbrev Result (α : Type) := Except LexError α × Lexer

/-- Fails where the cursor is, and leaves it there. -/
def refuse {α : Type} (lexer : Lexer) : Result α := (.error lexer.errorHere, lexer)

/-- Reads the next `count` bytes as a token whose text leaves out the first `hidden` of them. -/
def accept (lexer : Lexer) (kind : Kind) (count hidden : Nat) : Result Token :=
  let text := (Utf8.decode? ((lexer.rest.take count).drop hidden)).getD ""
  (.ok ⟨text, kind, lexer.offset⟩, lexer.advance count)

def decodeOp (lexer : Lexer) : Result Token :=
  match lexer.rest with
  | byte :: _ => if isAscii byte then lexer.accept .op 1 0 else lexer.refuse
  | [] => lexer.refuse

def decodeInt (lexer : Lexer) : Result Token :=
  match (lexer.rest.takeWhile isDigit).length with
  | 0 => lexer.refuse
  | count => lexer.accept .int count 0

/-- A doubled character. One that is not doubled is an error at its place that names what follows it,
and the cursor stays behind it. -/
def decodeLogic (lexer : Lexer) : Result Token :=
  match lexer.rest with
  | first :: rest =>
    if rest.head? = some first then lexer.accept .op 2 0
    else (.error ((lexer.advance 1).errorAt lexer.offset), lexer.advance 1)
  | [] => lexer.refuse

/-- A sigil and the longest run of name bytes behind it, which may be empty unless the sigil ends the
source. -/
def decodeVar (lexer : Lexer) (dropSigil : Bool) : Result Token :=
  match lexer.rest with
  | _ :: next :: rest =>
    lexer.accept .var (((next :: rest).takeWhile isNameByte).length + 1) (if dropSigil then 1 else 0)
  | _ => lexer.refuse

end Lexer

inductive Decoder where
  | op | int | logic | var
  deriving DecidableEq, Repr

namespace Lexer

/-- Reads one token. Only the text of a variable depends on whether the sigil is dropped. -/
def decode (lexer : Lexer) (dropSigil : Bool) : Decoder → Result Token
  | .op => lexer.decodeOp
  | .int => lexer.decodeInt
  | .logic => lexer.decodeLogic
  | .var => lexer.decodeVar dropSigil

theorem rest_lt_of_accept {lexer after : Lexer} {kind : Kind} {count hidden : Nat} {token : Token}
    (h : lexer.accept kind count hidden = (.ok token, after)) (moves : 0 < count)
    (more : lexer.rest ≠ []) : after.rest.length < lexer.rest.length := by
  obtain ⟨-, rfl⟩ := Prod.mk.inj h
  have := List.length_pos_iff.mpr more
  simp only [rest_advance, List.length_drop]
  omega

theorem rest_lt_of_decode {lexer after : Lexer} {dropSigil : Bool} {decoder : Decoder} {token : Token}
    (h : lexer.decode dropSigil decoder = (.ok token, after)) :
    after.rest.length < lexer.rest.length := by
  cases decoder with
  | op =>
    simp only [decode, decodeOp, refuse] at h
    split at h
    · rename_i same
      split at h
      · exact rest_lt_of_accept h Nat.one_pos (by simp [same])
      · simp at h
    · simp at h
  | int =>
    simp only [decode, decodeInt, refuse] at h
    split at h
    · simp at h
    · rename_i count more
      refine rest_lt_of_accept h (Nat.pos_of_ne_zero (by simpa using more)) ?_
      intro empty
      simp [empty] at more
  | logic =>
    simp only [decode, decodeLogic, refuse] at h
    split at h
    · rename_i same
      split at h
      · exact rest_lt_of_accept h Nat.two_pos (by simp [same])
      · simp at h
    · simp at h
  | var =>
    simp only [decode, decodeVar, refuse] at h
    split at h
    · rename_i same
      exact rest_lt_of_accept h (Nat.succ_pos _) (by simp [same])
    · simp at h

end Lexer

end Formula
