/-!
# Decimal text of 64-bit integers

One optional sign and at least one digit, read from the left. The first fault is the one reported: in
each step a character that is no digit comes before a value out of range.
-/

namespace Formula.Decimal

/-- Why a text is no 64-bit integer. -/
inductive Flaw where
  | empty | invalidDigit | tooLarge | tooSmall
  deriving DecidableEq, Repr

def Flaw.message : Flaw → String
  | .empty => "cannot parse integer from empty string"
  | .invalidDigit => "invalid digit found in string"
  | .tooLarge => "number too large to fit in target type"
  | .tooSmall => "number too small to fit in target type"

/-- The side of zero that a number's digits lead away to. -/
inductive Sign where
  | plus | minus
  deriving DecidableEq, Repr

/-- The value once one more digit follows the digits worth `value`. -/
def Sign.append (value digit : Int) : Sign → Int
  | .plus => 10 * value + digit
  | .minus => 10 * value - digit

/-- What a number of this sign is when it leaves the range. -/
def Sign.flaw : Sign → Flaw
  | .plus => .tooLarge
  | .minus => .tooSmall

def InRange (value : Int) : Prop :=
  Int64.minValue.toInt ≤ value ∧ value ≤ Int64.maxValue.toInt

instance (value : Int) : Decidable (InRange value) := inferInstanceAs (Decidable (_ ∧ _))

def digitValue (c : Char) : Int := c.toNat - '0'.toNat

/-- Reads digits that follow digits worth `value`. -/
def readDigits (sign : Sign) (value : Int) : List Char → Except Flaw Int
  | [] => .ok value
  | c :: rest =>
    if !c.isDigit then .error .invalidDigit
    else if InRange (sign.append value (digitValue c)) then
      readDigits sign (sign.append value (digitValue c)) rest
    else .error sign.flaw

/-- A sign alone has no digit to be valid. -/
def readChars : List Char → Except Flaw Int
  | [] => .error .empty
  | ['+'] | ['-'] => .error .invalidDigit
  | '+' :: digits => readDigits .plus 0 digits
  | '-' :: digits => readDigits .minus 0 digits
  | digits => readDigits .plus 0 digits

def read (text : String) : Except Flaw Int64 :=
  (readChars text.toList).map Int64.ofInt

end Formula.Decimal
