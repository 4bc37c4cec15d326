import Mathlib.Data.Int.ModEq
import Formula.Proofs.Evaluation.Arithmetic
import Formula.Proofs.Expr.Keys

/-!
# Wrapping around

Sums, differences and products that wrap around are those of integers of any size, cut down to 64 bits at the
end: it makes no difference how many of the values on the way were cut down too (`denote_of_exactValue`).
-/

namespace Formula.Arithmetic

variable {answers : String → Except String Int64}

def exactApply? (operator : String) (left right : Int) : Option Int :=
  match operator with
  | "+" => some (left + right)
  | "-" => some (left - right)
  | "*" => some (left * right)
  | _ => none

/-- The value of a tree in integers of any size. -/
def exactValue? (answers : String → Except String Int64) : Expr → Option Int
  | .op key left right => do
    let first ← exactValue? answers left
    let second ← exactValue? answers right
    exactApply? key first second
  | .var key => (answers key).toOption.map Int64.toInt
  | .int key => (Decimal.read key).toOption.map Int64.toInt

theorem apply_ofInt {operator : String} {left right value : Int}
    (valued : exactApply? operator left right = some value) :
    apply operator (.ofInt left) (.ofInt right) = .ok (.ofInt value) := by
  unfold exactApply? at valued
  split at valued
  · cases valued
    rw [Int64.ofInt_add]
    rfl
  · cases valued
    rw [Int64.ofInt_sub]
    rfl
  · cases valued
    rw [Int64.ofInt_mul]
    rfl
  · cases valued

theorem eq_ok_of_toInt {ε : Type} {result : Except ε Int64} {value : Int}
    (valued : result.toOption.map Int64.toInt = some value) : result = .ok (.ofInt value) := by
  cases result with
  | error e => cases valued
  | ok found =>
    cases valued
    rw [Int64.ofInt_toInt]

/-- The evaluation comes to the exact value, cut down to 64 bits. -/
theorem denote_of_exactValue {e : Expr} {value : Int} (valued : exactValue? answers e = some value)
    (asked : List String) :
    ∃ later, denote (some apply) (some fun _ => answers) e asked = (.ok (.ofInt value), later) := by
  induction e generalizing value asked with
  | op key left right ihLeft ihRight =>
    unfold exactValue? at valued
    obtain ⟨first, valuedLeft, valued⟩ := Option.bind_eq_some_iff.mp valued
    obtain ⟨second, valuedRight, valued⟩ := Option.bind_eq_some_iff.mp valued
    obtain ⟨between, reached⟩ := ihLeft valuedLeft asked
    obtain ⟨later, reachedToo⟩ := ihRight valuedRight between
    refine ⟨later, ?_⟩
    -- Both operands are cut down already, and what the operator makes of them is cut down once more.
    rw [denote, reached, Ending.andThen, reachedToo, Ending.andThen, apply_ofInt valued]
  | var key =>
    unfold exactValue? at valued
    refine ⟨key :: asked, ?_⟩
    rw [denote, consult, eq_ok_of_toInt valued]
    rfl
  | int key =>
    unfold exactValue? at valued
    refine ⟨asked, ?_⟩
    rw [denote, eq_ok_of_toInt valued]
    rfl

/-! ### Trees that have an exact value -/

theorem exists_exactApply {operator : String} (known : operator ∈ ["+", "-", "*"]) (left right : Int) :
    ∃ value, exactApply? operator left right = some value := by
  simp only [List.mem_cons, List.not_mem_nil, or_false] at known
  rcases known with rfl | rfl | rfl
  · exact ⟨left + right, rfl⟩
  · exact ⟨left - right, rfl⟩
  · exact ⟨left * right, rfl⟩

theorem exists_exactValue {e : Expr} (operators : ∀ key ∈ e.keys .op, key ∈ ["+", "-", "*"])
    (integers : ∀ key ∈ e.keys .int, ∃ value, Decimal.read key = .ok value)
    (resolved : ∀ key ∈ e.keys .var, ∃ value, answers key = .ok value) :
    ∃ value, exactValue? answers e = some value := by
  induction e with
  | op key left right ihLeft ihRight =>
    rw [Expr.keys_op_of_ne_op (by decide), List.forall_mem_append] at integers resolved
    rw [Expr.keys, if_pos rfl, List.forall_mem_append, List.forall_mem_append, List.forall_mem_singleton]
      at operators
    obtain ⟨operatorsLeft, known, operatorsRight⟩ := operators
    obtain ⟨first, valuedLeft⟩ := ihLeft operatorsLeft integers.1 resolved.1
    obtain ⟨second, valuedRight⟩ := ihRight operatorsRight integers.2 resolved.2
    obtain ⟨value, applied⟩ := exists_exactApply known first second
    refine ⟨value, ?_⟩
    rw [exactValue?, valuedLeft, valuedRight]
    exact applied
  | var key =>
    obtain ⟨value, answer⟩ := resolved key (List.mem_singleton_self key)
    refine ⟨value.toInt, ?_⟩
    rw [exactValue?, answer]
    rfl
  | int key =>
    obtain ⟨value, read⟩ := integers key (List.mem_singleton_self key)
    refine ⟨value.toInt, ?_⟩
    rw [exactValue?, read]
    rfl

/-- Cut down to 64 bits, an integer is the one in range that it is congruent to. -/
theorem eq_toInt_ofInt_iff {n value : Int} :
    n = (Int64.ofInt value).toInt ↔ -2 ^ 63 ≤ n ∧ n < 2 ^ 63 ∧ n ≡ value [ZMOD 2 ^ 64] := by
  have cut : (Int64.ofInt value).toInt = value.bmod (2 ^ 64) := Int64.toInt_ofInt
  constructor
  · rintro rfl
    refine ⟨Int64.le_toInt _, Int64.toInt_lt _, ?_⟩
    rw [cut]
    exact Int.bmod_emod
  · rintro ⟨low, high, congruent⟩
    have whole : n.bmod (2 ^ 64) = n := Int.bmod_eq_of_le (by omega) (by omega)
    have same : n.bmod (2 ^ 64) = value.bmod (2 ^ 64) := by
      rw [← Int.emod_bmod n, ← Int.emod_bmod value]
      exact congrArg (·.bmod (2 ^ 64)) congruent
    rw [cut, ← same, whole]

/-- With sums, differences and products only, and a value for every leaf, the evaluation succeeds with the one
64-bit integer that is congruent to the exact value of the tree. -/
theorem value_congruent_exact (answers : String → Except String Int64) (e : Expr)
    (operators : ∀ key ∈ e.keys .op, key ∈ ["+", "-", "*"])
    (integers : ∀ key ∈ e.keys .int, ∃ value, Decimal.read key = .ok value)
    (resolved : ∀ key ∈ e.keys .var, ∃ value, answers key = .ok value) (log : Log) :
    ∃ whole value, exactValue? answers e = some whole ∧
      ((interpret (some apply) (some fun _ => answers) e).interpretation.run log).1.outcome = .ok value ∧
      ∀ n : Int, n = value.toInt ↔ -2 ^ 63 ≤ n ∧ n < 2 ^ 63 ∧ n ≡ whole [ZMOD 2 ^ 64] := by
  obtain ⟨whole, valued⟩ := exists_exactValue operators integers resolved
  obtain ⟨later, denoted⟩ := denote_of_exactValue valued []
  obtain ⟨_, evaluates⟩ := exists_evaluates_interpret (some apply) (some fun _ => answers) e []
  refine ⟨whole, .ofInt whole, valued, ?_, fun n => eq_toInt_ofInt_iff⟩
  rw [interpretation_of_evaluates evaluates, denoted]

/-- The difference is out of range, and so is the product of it. -/
theorem value_of_overflows :
    exactValue? (fun _ => .ok Int64.minValue) (.op "*" (.op "-" (.var "x") (.int "3")) (.var "x")) =
      some 85070591730234615893513767968506380288 ∧
    ((interpret (some apply) (some fun _ _ => .ok Int64.minValue)
      (.op "*" (.op "-" (.var "x") (.int "3")) (.var "x"))).interpretation.run {}).1.outcome =
      .ok Int64.minValue ∧
    ∀ n : Int, n = Int64.minValue.toInt ↔
      -2 ^ 63 ≤ n ∧ n < 2 ^ 63 ∧ n ≡ 85070591730234615893513767968506380288 [ZMOD 2 ^ 64] := by
  have product : exactValue? (fun _ => .ok Int64.minValue) (.op "*" (.op "-" (.var "x") (.int "3")) (.var "x")) =
      some 85070591730234615893513767968506380288 := by decide
  have wrapped : ((interpret (some apply) (some fun _ _ => .ok Int64.minValue)
      (.op "*" (.op "-" (.var "x") (.int "3")) (.var "x"))).interpretation.run {}).1.outcome =
      .ok Int64.minValue := by
    obtain ⟨_, evaluates⟩ := exists_evaluates_interpret (some apply) (some fun _ _ => .ok Int64.minValue)
      (.op "*" (.op "-" (.var "x") (.int "3")) (.var "x")) []
    rw [interpretation_of_evaluates evaluates]
    rfl
  have three : ∀ key ∈ ["3"], ∃ value, Decimal.read key = .ok value :=
    List.forall_mem_singleton.mpr ⟨3, by rfl⟩
  obtain ⟨whole, value, valued, outcome, congruent⟩ := value_congruent_exact (fun _ => .ok Int64.minValue)
    (.op "*" (.op "-" (.var "x") (.int "3")) (.var "x")) (by decide) three (fun _ _ => ⟨_, rfl⟩) {}
  cases valued.symm.trans product
  cases outcome.symm.trans wrapped
  exact ⟨product, wrapped, congruent⟩

end Formula.Arithmetic
