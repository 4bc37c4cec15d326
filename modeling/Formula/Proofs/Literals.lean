import Formula.Proofs.Build
import Formula.Proofs.Evaluation.Arithmetic
import Formula.Proofs.Text.Decimal
import Formula.Proofs.Token.Layout

/-!
# Literals

A literal is kept as it is written until it is evaluated. Digits of any number are built, whatever they are worth
(`build_digits`), and only an evaluation finds out that a number is too large. A tree that was not built may hold
any text for a literal. Just the numerals in range among these texts have a value (`outcome_int_eq_ok_iff`).
-/

namespace Formula

open Ascii (isBlankChar)

namespace Dialect

variable {d : Dialect}

/-- A literal with blanks around it, and no lexeme besides. -/
theorem tokenize_digits (known : d.hasIntegers = true) {gap digits tail : String}
    (before : ∀ c ∈ gap.toList, isBlankChar c = true) (nonempty : digits ≠ "")
    (all : ∀ c ∈ digits.toList, c.isDigit = true) (behind : ∀ c ∈ tail.toList, isBlankChar c = true)
    (dropSigil : Bool) (log : Log) :
    ((d.lexing.tokenize dropSigil (gap ++ digits ++ tail)).run log).1 =
      .ok [⟨digits, .int, gap.utf8ByteSize⟩] := by
  let literal : Chunk d := ⟨gap, .int, digits, before, .int known nonempty all⟩
  have noSigil : literal.text = "$" → tail ≠ "" := fun sigil => nomatch kind_of_sigil literal sigil
  have divided := (divided_iff_separated behind [literal]).mpr (separated_singleton_iff.mpr noSigil)
  have read := tokenize_of_blank divided behind dropSigil log
  have source : Chunk.sources [literal] = gap ++ digits := String.append_empty
  have tokens : Chunk.tokens dropSigil 0 [literal] = [⟨digits, .int, gap.utf8ByteSize⟩] := by
    rw [Chunk.tokens, Chunk.tokens, Chunk.token, Nat.zero_add]
    rfl
  rwa [source, tokens] at read

end Dialect

namespace Arithmetic

/-- How large a number is makes no difference for building it. -/
theorem build_digits {gap digits tail : String} (before : ∀ c ∈ gap.toList, isBlankChar c = true)
    (nonempty : digits ≠ "") (all : ∀ c ∈ digits.toList, c.isDigit = true)
    (behind : ∀ c ∈ tail.toList, isBlankChar c = true) (dropSigil : Bool) (log : Log) :
    ((build grammar (gap ++ digits ++ tail) dropSigil).run log).1 = .ok (.int digits) := by
  have some : gap ++ digits ++ tail ≠ "" := by
    intro empty
    obtain ⟨front, -⟩ := String.append_eq_empty_iff.mp empty
    exact nonempty (String.append_eq_empty_iff.mp front).2
  have tokenized := Dialect.tokenize_digits (d := .arithmetic) rfl before nonempty all behind dropSigil log
  refine build_eq_ok_iff.mpr ⟨some, (Grammar.build_eq_ok_iff rfl).mpr ?_⟩
  exact ⟨.leaf ⟨digits, .int, gap.utf8ByteSize⟩ (.int digits) rfl rfl, trivial, tokenized, rfl⟩

variable (table? : Option OperatorTable) (resolver? : Option (Resolver Int64))

theorem outcome_int (key : String) (log : Log) :
    ((interpret table? resolver? (.int key)).interpretation.run log).1.outcome =
      (Decimal.read key).mapError (.malformedInteger key) := by
  obtain ⟨_, evaluates⟩ := exists_evaluates_interpret table? resolver? (.int key) []
  rw [interpretation_of_evaluates evaluates, denote]

theorem outcome_int_eq_ok_iff {key : String} {log : Log} {value : Int64} :
    ((interpret table? resolver? (.int key)).interpretation.run log).1.outcome = .ok value ↔
      Decimal.Numeral key value.toInt := by
  rw [outcome_int, ← Decimal.read_eq_ok_iff]
  cases Decimal.read key with
  | ok found => simp only [Except.mapError, Except.ok.injEq]
  | error cause => exact iff_of_false nofun nofun

theorem exists_outcome_int_eq_error_iff {key : String} {log : Log} :
    (∃ cause, ((interpret table? resolver? (.int key)).interpretation.run log).1.outcome =
        .error (.malformedInteger key cause)) ↔
      ∀ number, Decimal.Numeral key number → ¬Decimal.InRange number := by
  rw [outcome_int, ← Decimal.exists_read_eq_error_iff]
  cases Decimal.read key with
  | ok found => exact iff_of_false nofun nofun
  | error flaw => exact iff_of_true ⟨flaw, rfl⟩ ⟨flaw, rfl⟩

theorem outcome_int_of_digits {digits : String} (nonempty : digits ≠ "") (all : ∀ c ∈ digits.toList, c.isDigit = true)
    (log : Log) :
    (Nat.ofDigitChars 10 digits.toList 0 ≤ 9223372036854775807 →
      ∃ value, ((interpret table? resolver? (.int digits)).interpretation.run log).1.outcome = .ok value ∧
        value.toInt = Nat.ofDigitChars 10 digits.toList 0) ∧
    (9223372036854775807 < Nat.ofDigitChars 10 digits.toList 0 →
      ((interpret table? resolver? (.int digits)).interpretation.run log).1.outcome =
        .error (.malformedInteger digits .tooLarge)) := by
  have most : Int64.maxValue.toInt = 9223372036854775807 := rfl
  rw [outcome_int, Decimal.read_of_digits nonempty all]
  constructor
  · intro small
    have inside : Decimal.InRange (Nat.ofDigitChars 10 digits.toList 0) := by
      rw [Decimal.inRange_natCast]
      omega
    rw [if_pos inside]
    exact ⟨_, rfl, Decimal.toInt_ofInt_of_inRange inside⟩
  · intro large
    have outside : ¬Decimal.InRange (Nat.ofDigitChars 10 digits.toList 0) := by
      rw [Decimal.inRange_natCast]
      omega
    rw [if_neg outside]
    rfl

/-- A literal comes to the number that its text is worth, and is malformed when the text is worth none that is in
range. Digits between blanks are built whatever they are worth. -/
theorem literal_value_iff (log log' : Log) :
    (∀ key,
      (∀ value, ((interpret table? resolver? (.int key)).interpretation.run log).1.outcome = .ok value ↔
        Decimal.Numeral key value.toInt) ∧
      ((∃ cause, ((interpret table? resolver? (.int key)).interpretation.run log).1.outcome =
          .error (.malformedInteger key cause)) ↔
        ∀ number, Decimal.Numeral key number →
          ¬(-9223372036854775808 ≤ number ∧ number ≤ 9223372036854775807))) ∧
    ∀ gap digits tail, (∀ c ∈ gap.toList, isBlankChar c = true) → digits ≠ "" →
      (∀ c ∈ digits.toList, c.isDigit = true) → (∀ c ∈ tail.toList, isBlankChar c = true) → ∀ dropSigil,
        ((build grammar (gap ++ digits ++ tail) dropSigil).run log').1 = .ok (.int digits) ∧
        (Nat.ofDigitChars 10 digits.toList 0 ≤ 9223372036854775807 →
          ∃ value, ((interpret table? resolver? (.int digits)).interpretation.run log).1.outcome = .ok value ∧
            value.toInt = Nat.ofDigitChars 10 digits.toList 0) ∧
        (9223372036854775807 < Nat.ofDigitChars 10 digits.toList 0 →
          ((interpret table? resolver? (.int digits)).interpretation.run log).1.outcome =
            .error (.malformedInteger digits .tooLarge)) := by
  constructor
  · intro key
    refine ⟨fun value => outcome_int_eq_ok_iff table? resolver?, ?_⟩
    exact exists_outcome_int_eq_error_iff table? resolver?
  · intro gap digits tail before nonempty all behind dropSigil
    exact ⟨build_digits before nonempty all behind dropSigil log',
      outcome_int_of_digits table? resolver? nonempty all log⟩

/-- The least number, zeros in front of a number between blanks, and the first number that is too large. -/
theorem literal_value_of_bounds :
    Decimal.Numeral "-9223372036854775808" Int64.minValue.toInt ∧
    (((build grammar " \t0042\n" true).run {}).1 = .ok (.int "0042") ∧
      ∃ value, ((interpret (some apply) none (.int "0042")).interpretation.run {}).1.outcome = .ok value ∧
        value.toInt = 42) ∧
    ((build grammar "9223372036854775808" false).run {}).1 = .ok (.int "9223372036854775808") ∧
      ((interpret (some apply) none (.int "9223372036854775808")).interpretation.run {}).1.outcome =
        .error (.malformedInteger "9223372036854775808" .tooLarge) := by
  obtain ⟨texts, runs⟩ := literal_value_iff (some apply) none {} {}
  have least : ((interpret (some apply) none (.int "-9223372036854775808")).interpretation.run {}).1.outcome =
      .ok Int64.minValue := by
    rw [outcome_int]
    rfl
  obtain ⟨small, valued, -⟩ := runs " \t" "0042" "\n" (by decide) (by decide) (by decide) (by decide) true
  obtain ⟨large, -, failed⟩ := runs "" "9223372036854775808" "" (by decide) (by decide) (by decide) (by decide) false
  exact ⟨((texts _).1 _).mp least, ⟨small, valued (by decide)⟩, large, failed (by decide)⟩

end Arithmetic

end Formula
