/-!
# Byte classes

The classes that reading a formula tells apart. All of them are ASCII: a byte of a longer character
is in none.
-/

namespace Formula.Ascii

/-- Space, tab, newline, vertical tab, form feed or carriage return. -/
def isBlank (byte : UInt8) : Bool :=
  byte == 0x20 || (0x09 ≤ byte && byte ≤ 0x0D)

def isDigit (byte : UInt8) : Bool :=
  0x30 ≤ byte && byte ≤ 0x39

/-- A letter, a digit or an underscore: what may follow the sigil in a variable. -/
def isNameByte (byte : UInt8) : Bool :=
  isDigit byte || (0x41 ≤ byte && byte ≤ 0x5A) || (0x61 ≤ byte && byte ≤ 0x7A) || byte == 0x5F

/-- The byte starts no longer character. -/
def isAscii (byte : UInt8) : Bool :=
  byte < 0x80

/-- Marks the start of a variable. -/
def sigil : UInt8 := '$'.toUInt8

theorem isNameByte_of_isDigit {byte : UInt8} (h : isDigit byte = true) : isNameByte byte = true := by
  simp [isNameByte, h]

end Formula.Ascii
