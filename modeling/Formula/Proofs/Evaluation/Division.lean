import Formula.Arithmetic

/-!
# Quotients and remainders

Division truncates toward zero and the remainder takes the sign of the dividend, so the two make up the
dividend again (`div_mul_add_mod`). One quotient is out of range, that of the least value by minus one. It
wraps around to the dividend, and the product with the divisor wraps back.
-/

namespace Formula.Arithmetic

/-- What a quotient and a remainder have to do with their operands and with each other. -/
structure Divides (left right quotient remainder : Int64) : Prop where
  restores : ∃ product, apply "*" quotient right = .ok product ∧ apply "+" product remainder = .ok left
  smaller : remainder.toInt.natAbs < right.toInt.natAbs
  sign : remainder = 0 ∨ remainder.toInt.sign = left.toInt.sign
  truncates : quotient = .ofInt (left.toInt.tdiv right.toInt)
  fits_iff : quotient.toInt = left.toInt.tdiv right.toInt ↔ ¬(left = Int64.minValue ∧ right = -1)

section Words

variable {left right : Int64}

theorem toInt_ne_zero (nonzero : right ≠ 0) : right.toInt ≠ 0 := by
  intro zero
  exact nonzero (Int64.toInt_inj.mp zero)

theorem div_eq_ofInt_tdiv (left right : Int64) : left / right = .ofInt (left.toInt.tdiv right.toInt) := by
  rw [← Int64.toInt_inj, Int64.toInt_div, Int64.toInt_ofInt]

theorem mod_eq_ofInt_tmod (left right : Int64) : left % right = .ofInt (left.toInt.tmod right.toInt) := by
  rw [← Int64.toInt_mod, Int64.ofInt_toInt]

/-- The exact quotient and remainder make up the dividend, and cutting them down to 64 bits before or after makes
no difference. -/
theorem div_mul_add_mod (left right : Int64) : left / right * right + left % right = left := by
  calc left / right * right + left % right
      = .ofInt (left.toInt.tdiv right.toInt) * .ofInt right.toInt + .ofInt (left.toInt.tmod right.toInt) := by
        rw [div_eq_ofInt_tdiv, mod_eq_ofInt_tmod, Int64.ofInt_toInt]
    _ = .ofInt (left.toInt.tdiv right.toInt * right.toInt + left.toInt.tmod right.toInt) := by
        rw [Int64.ofInt_add, Int64.ofInt_mul]
    _ = left := by rw [Int.tdiv_mul_add_tmod, Int64.ofInt_toInt]

theorem natAbs_mod_lt (nonzero : right ≠ 0) : (left % right).toInt.natAbs < right.toInt.natAbs := by
  rw [Int64.toInt_mod, Int.natAbs_tmod]
  exact Nat.mod_lt _ (Int.natAbs_pos.mpr (toInt_ne_zero nonzero))

theorem sign_mod (left right : Int64) : left % right = 0 ∨ (left % right).toInt.sign = left.toInt.sign := by
  rw [← Int64.toInt_inj, Int64.toInt_mod, Int.sign_tmod]
  by_cases divides : right.toInt ∣ left.toInt
  · exact .inl (Int.tmod_eq_zero_of_dvd divides)
  · exact .inr (if_neg divides)

theorem toInt_div_eq_tdiv_iff :
    (left / right).toInt = left.toInt.tdiv right.toInt ↔ ¬(left = Int64.minValue ∧ right = -1) := by
  constructor
  · rintro fits ⟨rfl, rfl⟩
    revert fits
    decide
  · intro other
    by_cases least : left = Int64.minValue
    · exact Int64.toInt_div_of_ne_right left right fun minusOne => other ⟨least, minusOne⟩
    · exact Int64.toInt_div_of_ne_left left right least

theorem divides_div_mod (nonzero : right ≠ 0) : Divides left right (left / right) (left % right) where
  restores := ⟨left / right * right, rfl, congrArg Except.ok (div_mul_add_mod left right)⟩
  smaller := natAbs_mod_lt nonzero
  sign := sign_mod left right
  truncates := div_eq_ofInt_tdiv left right
  fits_iff := toInt_div_eq_tdiv_iff

end Words

/-- By a divisor other than zero there is a quotient, and there is a remainder that goes with it. By zero there is
neither. -/
theorem exists_quotient_and_remainder (left right : Int64) :
    (right ≠ 0 → ∃ quotient remainder,
      apply "/" left right = .ok quotient ∧ apply "%" left right = .ok remainder ∧
        Divides left right quotient remainder) ∧
    (right = 0 →
      apply "/" left right = .error (.divisionByZero "/" left right) ∧
        apply "%" left right = .error (.divisionByZero "%" left right)) := by
  constructor
  · intro nonzero
    exact ⟨left / right, left % right, if_neg nonzero, if_neg nonzero, divides_div_mod nonzero⟩
  · intro zero
    exact ⟨if_pos zero, if_pos zero⟩

/-- The quotient that is out of range, and a divisor of zero. -/
theorem least_value_by_minus_one :
    (-1 : Int64) ≠ 0 ∧ apply "/" Int64.minValue (-1) = .ok Int64.minValue ∧
      apply "%" Int64.minValue (-1) = .ok 0 ∧ Divides Int64.minValue (-1) Int64.minValue 0 ∧
    apply "%" Int64.minValue 0 = .error (.divisionByZero "%" Int64.minValue 0) := by
  have nonzero : (-1 : Int64) ≠ 0 := by decide
  have quotient : apply "/" Int64.minValue (-1) = .ok Int64.minValue := rfl
  have remainder : apply "%" Int64.minValue (-1) = .ok 0 := rfl
  obtain ⟨_, _, same, same', divides⟩ := (exists_quotient_and_remainder Int64.minValue (-1)).1 nonzero
  cases quotient.symm.trans same
  cases remainder.symm.trans same'
  exact ⟨nonzero, quotient, remainder, divides, ((exists_quotient_and_remainder Int64.minValue 0).2 rfl).2⟩

end Formula.Arithmetic
