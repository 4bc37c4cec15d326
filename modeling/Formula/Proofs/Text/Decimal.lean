import Formula.Text.Decimal

/-!
# What a decimal text is worth

A numeral is an optional sign and at least one digit. Reading one stops at the first digit that takes the number
out of range. A longer run of digits leads no nearer to zero, so this tells whether the whole number is in range
(`readDigits_of_digits`). So what is read is the value of a numeral, and every numeral in range is read
(`read_eq_ok_iff`).
-/

namespace Formula.Decimal

/-- The number of a sign whose digits are worth `magnitude`. -/
def Sign.number (magnitude : Nat) : Sign → Int
  | .plus => magnitude
  | .minus => -magnitude

/-- How a sign is written. Only the one of a number that is not negative may be left out. -/
def Sign.marks : Sign → List String
  | .plus => ["", "+"]
  | .minus => ["-"]

/-- An optional sign and at least one digit, with the number that they are worth. -/
inductive Numeral : String → Int → Prop where
  | intro {sign : Sign} {mark digits : String} (written : mark ∈ sign.marks) (nonempty : digits ≠ "")
      (all : ∀ c ∈ digits.toList, c.isDigit = true) :
      Numeral (mark ++ digits) (sign.number (Nat.ofDigitChars 10 digits.toList 0))

variable {sign : Sign}

/-! ### Digits -/

theorem append_number {c : Char} (digit : c.isDigit = true) (magnitude : Nat) :
    sign.append (sign.number magnitude) (digitValue c) =
      sign.number (10 * magnitude + (c.toNat - '0'.toNat)) := by
  have bounds : '0'.toNat ≤ c.toNat := by
    simp only [Char.isDigit, Bool.and_eq_true, decide_eq_true_eq, UInt32.le_iff_toNat_le] at digit
    exact digit.1
  have value : digitValue c = ((c.toNat - '0'.toNat : Nat) : Int) := by
    rw [digitValue, Int.ofNat_sub bounds]
  rw [value]
  cases sign with
  | plus => rfl
  | minus =>
    simp only [Sign.append, Sign.number]
    omega

/-- What is no farther from zero than a number in range is in range too. -/
theorem inRange_number_of_le {less more : Nat} (le : less ≤ more) (inside : InRange (sign.number more)) :
    InRange (sign.number less) := by
  have low : Int64.minValue.toInt ≤ 0 := by decide
  have high : 0 ≤ Int64.maxValue.toInt := by decide
  unfold InRange at *
  cases sign with
  | plus =>
    simp only [Sign.number] at *
    omega
  | minus =>
    simp only [Sign.number] at *
    omega

theorem inRange_natCast {value : Nat} : InRange value ↔ (value : Int) ≤ Int64.maxValue.toInt := by
  have low : Int64.minValue.toInt ≤ 0 := by decide
  unfold InRange
  omega

theorem le_ofDigitChars (digits : List Char) (value : Nat) : value ≤ Nat.ofDigitChars 10 digits value := by
  induction digits generalizing value with
  | nil => exact Nat.le_refl value
  | cons c rest ih =>
    rw [Nat.ofDigitChars_cons]
    have more := ih (10 * value + (c.toNat - '0'.toNat))
    omega

/-- Digits behind digits worth `magnitude` are read as what they all are worth, if that is in range. -/
theorem readDigits_of_digits {digits : List Char} (all : ∀ c ∈ digits, c.isDigit = true) {magnitude : Nat}
    (inside : InRange (sign.number magnitude)) :
    readDigits sign (sign.number magnitude) digits =
      if InRange (sign.number (Nat.ofDigitChars 10 digits magnitude)) then
        .ok (sign.number (Nat.ofDigitChars 10 digits magnitude))
      else .error sign.flaw := by
  induction digits generalizing magnitude with
  | nil =>
    rw [Nat.ofDigitChars_nil, if_pos inside]
    rfl
  | cons c rest ih =>
    obtain ⟨digit, all⟩ := List.forall_mem_cons.mp all
    rw [readDigits, digit, Bool.not_true, if_neg Bool.false_ne_true, append_number digit,
      Nat.ofDigitChars_cons]
    by_cases fits : InRange (sign.number (10 * magnitude + (c.toNat - '0'.toNat)))
    · rw [if_pos fits]
      exact ih all fits
    · -- The digits that follow lead no nearer to zero.
      have outside := mt (inRange_number_of_le (le_ofDigitChars rest _)) fits
      rw [if_neg fits, if_neg outside]

theorem isDigit_of_readDigits {digits : List Char} {value number : Int}
    (read : readDigits sign value digits = .ok number) : ∀ c ∈ digits, c.isDigit = true := by
  induction digits generalizing value with
  | nil => exact List.forall_mem_nil _
  | cons c rest ih =>
    rw [readDigits] at read
    split at read
    · cases read
    split at read
    · rename_i digit _
      exact List.forall_mem_cons.mpr ⟨by simpa using digit, ih read⟩
    · cases read

/-! ### Whole texts -/

theorem readDigits_zero {digits : List Char} (all : ∀ c ∈ digits, c.isDigit = true) :
    readDigits sign 0 digits =
      if InRange (sign.number (Nat.ofDigitChars 10 digits 0)) then .ok (sign.number (Nat.ofDigitChars 10 digits 0))
      else .error sign.flaw := by
  have start : sign.number 0 = 0 := by cases sign <;> rfl
  rw [← readDigits_of_digits all (by rw [start]; decide), start]

theorem readChars_of_isDigit {c : Char} (digit : c.isDigit = true) (rest : List Char) :
    readChars (c :: rest) = readDigits .plus 0 (c :: rest) := by
  have notPlus : c ≠ '+' := by
    rintro rfl
    exact absurd digit (by decide)
  have notMinus : c ≠ '-' := by
    rintro rfl
    exact absurd digit (by decide)
  unfold readChars
  split <;> simp_all

/-- Behind its sign a number is read digit by digit. -/
theorem readChars_of_mark {mark digits : String} (written : mark ∈ sign.marks) (nonempty : digits ≠ "")
    (all : ∀ c ∈ digits.toList, c.isDigit = true) :
    readChars (mark ++ digits).toList = readDigits sign 0 digits.toList := by
  obtain ⟨c, rest, same⟩ := List.exists_cons_of_ne_nil (mt String.toList_eq_nil_iff.mp nonempty)
  rw [String.toList_append, same]
  cases sign with
  | plus =>
    simp only [Sign.marks, List.mem_cons, List.not_mem_nil, or_false] at written
    rcases written with rfl | rfl
    · exact readChars_of_isDigit (all c (by simp [same])) rest
    · rfl
  | minus =>
    simp only [Sign.marks, List.mem_cons, List.not_mem_nil, or_false] at written
    subst written
    rfl

theorem read_of_mark {mark digits : String} (written : mark ∈ sign.marks) (nonempty : digits ≠ "")
    (all : ∀ c ∈ digits.toList, c.isDigit = true) :
    read (mark ++ digits) =
      if InRange (sign.number (Nat.ofDigitChars 10 digits.toList 0)) then
        .ok (.ofInt (sign.number (Nat.ofDigitChars 10 digits.toList 0)))
      else .error sign.flaw := by
  rw [read, readChars_of_mark written nonempty all, readDigits_zero all]
  split
  · rfl
  · rfl

/-- A run of digits is read as what it is worth, unless that is too large. -/
theorem read_of_digits {text : String} (nonempty : text ≠ "") (all : ∀ c ∈ text.toList, c.isDigit = true) :
    read text =
      if InRange (Nat.ofDigitChars 10 text.toList 0) then .ok (.ofInt (Nat.ofDigitChars 10 text.toList 0))
      else .error .tooLarge := by
  have unmarked : "" ∈ Sign.plus.marks := by decide
  have unsigned := read_of_mark unmarked nonempty all
  rwa [String.empty_append] at unsigned

theorem numeral_of_readDigits {mark digits : List Char} {number : Int} (written : String.ofList mark ∈ sign.marks)
    (nonempty : digits ≠ []) (read : readDigits sign 0 digits = .ok number) :
    Numeral (String.ofList (mark ++ digits)) number ∧ InRange number := by
  have all := isDigit_of_readDigits read
  rw [readDigits_zero all] at read
  split at read
  · rename_i inside
    cases read
    have numeral := @Numeral.intro sign (String.ofList mark) (String.ofList digits) written
    rw [← String.ofList_append, String.toList_ofList] at numeral
    exact ⟨numeral (mt String.ofList_eq_empty_iff.mp nonempty) all, inside⟩
  · cases read

theorem numeral_of_readChars {chars : List Char} {number : Int} (read : readChars chars = .ok number) :
    Numeral (String.ofList chars) number ∧ InRange number := by
  unfold readChars at read
  split at read
  · cases read
  · cases read
  · cases read
  · rename_i digits more
    show Numeral (String.ofList (['+'] ++ digits)) number ∧ _
    exact numeral_of_readDigits (by decide) more read
  · rename_i digits more
    show Numeral (String.ofList (['-'] ++ digits)) number ∧ _
    exact numeral_of_readDigits (by decide) more read
  · rename_i nonempty _ _ _ _
    show Numeral (String.ofList ([] ++ chars)) number ∧ _
    exact numeral_of_readDigits (by decide) nonempty read

theorem inRange_toInt (value : Int64) : InRange value.toInt :=
  ⟨value.minValue_le_toInt, value.toInt_le⟩

theorem toInt_ofInt_of_inRange {number : Int} (inside : InRange number) : (Int64.ofInt number).toInt = number :=
  Int64.toInt_ofInt_of_le inside.1 (Int.lt_of_le_of_lt inside.2 (by decide))

/-- What is read is the value of a numeral, and every numeral whose value is in range is read. -/
theorem read_eq_ok_iff {text : String} {value : Int64} : read text = .ok value ↔ Numeral text value.toInt := by
  constructor
  · intro valued
    rw [read] at valued
    cases chars : readChars text.toList with
    | error flaw =>
      rw [chars] at valued
      cases valued
    | ok number =>
      rw [chars] at valued
      cases valued
      obtain ⟨numeral, inside⟩ := numeral_of_readChars chars
      rwa [String.ofList_toList, ← toInt_ofInt_of_inRange inside] at numeral
  · intro numeral
    have inside := inRange_toInt value
    generalize same : value.toInt = number at numeral inside
    cases numeral with
    | intro written nonempty all =>
      rw [read_of_mark written nonempty all, if_pos inside, ← same, Int64.ofInt_toInt]

theorem exists_read_eq_error_iff {text : String} :
    (∃ flaw, read text = .error flaw) ↔ ∀ number, Numeral text number → ¬InRange number := by
  constructor
  · rintro ⟨flaw, failed⟩ number numeral inside
    rw [← toInt_ofInt_of_inRange inside, ← read_eq_ok_iff, failed] at numeral
    cases numeral
  · intro outside
    cases valued : read text with
    | ok value => exact (outside value.toInt (read_eq_ok_iff.mp valued) (inRange_toInt value)).elim
    | error flaw => exact ⟨flaw, rfl⟩

end Formula.Decimal
