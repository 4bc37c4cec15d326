import Formula.Proofs.Evaluation.Boolean
import Formula.Proofs.Expr.Keys

/-!
# Truth values

A boolean evaluation looks at no more of a formula than it has to. It still comes to the truth value of the
whole formula, which looks at both operands of every connective: an operand that is passed over could not have
changed the outcome, whatever its variables had been (`truthValue_of_shortCircuit`).
-/

namespace Formula.Boolean

variable {ρ : Type} {answers : String → Except String (Truth ρ)} {guess : String → Bool} {e : Expr}

/-- A formula of connectives and variables only. -/
def IsPropositional : Expr → Prop
  | .op key left right => (key = "&&" ∨ key = "||") ∧ IsPropositional left ∧ IsPropositional right
  | .var _ => True
  | .int _ => False

def combine? (operator : String) (left right : Bool) : Option Bool :=
  match operator with
  | "&&" => some (left && right)
  | "||" => some (left || right)
  | _ => none

/-- The truth value of a formula. Both operands of a connective are looked at. -/
def truthValue? (valuation : String → Bool) : Expr → Option Bool
  | .op key left right => do
    let first ← truthValue? valuation left
    let second ← truthValue? valuation right
    combine? key first second
  | .var key => some (valuation key)
  | .int _ => none

/-- A variable that is answered is as true as its answer. The others are guessed. -/
def valuation (answers : String → Except String (Truth ρ)) (guess : String → Bool) (key : String) : Bool :=
  match answers key with
  | .ok .holds => true
  | .ok (.fails _) => false
  | .error _ => guess key

/-! ### One connective -/

section Connective

variable {key : String} {connective : Connective} {truth : Truth ρ}

theorem combine?_of_isDecidedBy (found : Connective.ofKey? key = some connective)
    (decides : connective.isDecidedBy truth = true) (right : Bool) :
    combine? key truth.isTrue right = some truth.isTrue := by
  rw [Connective.ofKey?_eq_some_iff] at found
  subst found
  cases connective with
  | and =>
    have fails : truth.isTrue = false := by simpa [Connective.isDecidedBy, Truth.isFalse] using decides
    rw [fails]
    rfl
  | or =>
    have holds : truth.isTrue = true := decides
    rw [holds]
    rfl

theorem combine?_of_not_isDecidedBy (found : Connective.ofKey? key = some connective)
    (undecided : connective.isDecidedBy truth ≠ true) (right : Bool) :
    combine? key truth.isTrue right = some right := by
  rw [Connective.ofKey?_eq_some_iff] at found
  subst found
  cases connective with
  | and =>
    have holds : truth.isTrue = true := by simpa [Connective.isDecidedBy, Truth.isFalse] using undecided
    rw [holds]
    rfl
  | or =>
    have fails : truth.isTrue = false := by simpa [Connective.isDecidedBy] using undecided
    rw [fails]
    rfl

end Connective

/-! ### The whole formula -/

theorem exists_truthValue (propositional : IsPropositional e) (valuation : String → Bool) :
    ∃ value, truthValue? valuation e = some value := by
  induction e with
  | op key left right ihLeft ihRight =>
    obtain ⟨known, left, right⟩ := propositional
    obtain ⟨first, valued⟩ := ihLeft left
    obtain ⟨second, valuedToo⟩ := ihRight right
    rw [truthValue?, valued, valuedToo]
    rcases known with rfl | rfl
    · exact ⟨first && second, rfl⟩
    · exact ⟨first || second, rfl⟩
  | var key => exact ⟨valuation key, rfl⟩
  | int key => exact propositional.elim

/-- An evaluation that comes to a truth comes to that of the whole formula, whatever is guessed of the variables
that have no answer. -/
theorem truthValue_of_shortCircuit (propositional : IsPropositional e) {truth : Truth ρ} {asked later : List String}
    (ends : shortCircuit (some fun _ => answers) e asked = (.ok truth, later)) :
    truthValue? (valuation answers guess) e = some truth.isTrue := by
  induction e generalizing truth asked later with
  | op key left right ihLeft ihRight =>
    obtain ⟨known, propositionalLeft, propositionalRight⟩ := propositional
    obtain ⟨connective, found⟩ := exists_connective known
    rw [shortCircuit_of_ofKey? _ found] at ends
    obtain ⟨first, between, reached, ends⟩ := Ending.eq_ok_of_andThen ends
    rw [truthValue?, ihLeft propositionalLeft reached]
    by_cases decides : connective.isDecidedBy first = true
    · -- The right operand is passed over, but it has a truth value all the same.
      rw [if_pos decides] at ends
      cases ends
      obtain ⟨second, valued⟩ := exists_truthValue propositionalRight (valuation answers guess)
      rw [valued]
      exact combine?_of_isDecidedBy found decides second
    · rw [if_neg decides] at ends
      rw [ihRight propositionalRight ends]
      exact combine?_of_not_isDecidedBy found decides truth.isTrue
  | var key =>
    have answer : answers key = .ok truth := by
      rw [shortCircuit, consult] at ends
      cases answer : answers key with
      | ok value =>
        rw [answer] at ends
        cases ends
        rfl
      | error text =>
        rw [answer] at ends
        cases ends
    rw [truthValue?, valuation, answer]
    cases truth <;> rfl
  | int key => exact propositional.elim

theorem exists_truth (propositional : IsPropositional e)
    (answered : ∀ key ∈ e.keys .var, ∃ truth, answers key = .ok truth) (asked : List String) :
    ∃ truth later, shortCircuit (some fun _ => answers) e asked = (.ok truth, later) := by
  induction e generalizing asked with
  | op key left right ihLeft ihRight =>
    obtain ⟨known, propositionalLeft, propositionalRight⟩ := propositional
    obtain ⟨connective, found⟩ := exists_connective known
    rw [Expr.keys_op_of_ne_op (by decide), List.forall_mem_append] at answered
    obtain ⟨first, between, reached⟩ := ihLeft propositionalLeft answered.1 asked
    rw [shortCircuit_of_ofKey? _ found, reached, Ending.andThen]
    split
    · exact ⟨first, between, rfl⟩
    · exact ihRight propositionalRight answered.2 between
  | var key =>
    obtain ⟨truth, answer⟩ := answered key (List.mem_singleton_self key)
    refine ⟨truth, key :: asked, ?_⟩
    rw [shortCircuit, consult, answer]
    rfl
  | int key => exact propositional.elim

/-- A formula whose variables are all answered comes to a truth. A truth that a formula comes to is its truth
value, and variables without an answer have no part in it. -/
theorem outcome_is_truthValue (answers : String → Except String (Truth ρ)) (e : Expr)
    (propositional : IsPropositional e) (log : Log) :
    ((∀ key ∈ e.keys .var, ∃ truth, answers key = .ok truth) →
      ∃ truth, ((interpret (some fun _ => answers) e).interpretation.run log).1.outcome = .ok truth) ∧
    ∀ truth, ((interpret (some fun _ => answers) e).interpretation.run log).1.outcome = .ok truth →
      ∀ guess, truthValue? (valuation answers guess) e = some truth.isTrue := by
  obtain ⟨_, evaluates⟩ := exists_evaluates_interpret (some fun _ => answers) e []
  rw [interpretation_of_evaluates evaluates]
  constructor
  · intro answered
    obtain ⟨truth, later, reached⟩ := exists_truth propositional answered []
    exact ⟨truth, by rw [reached]⟩
  · intro truth outcome guess
    exact truthValue_of_shortCircuit propositional (Prod.ext outcome rfl)

/-- The refused `$b` stands in a conjunction behind a falsity, so it may be guessed true or false. Without it every
variable is answered. -/
theorem outcome_beside_refused :
    IsPropositional (.op "||" (.op "&&" (.var "$a") (.var "$b")) (.var "$c")) ∧
    ((interpret (some fun _ key => if key = "$b" then .error "none" else .ok (if key = "$a" then .fails 1 else .holds))
      (.op "||" (.op "&&" (.var "$a") (.var "$b")) (.var "$c"))).interpretation.run {}).1.outcome =
        .ok (.holds : Truth Nat) ∧
    (∀ guess, truthValue?
      (valuation (fun key => if key = "$b" then .error "none" else .ok (if key = "$a" then .fails 1 else .holds)) guess)
      (.op "||" (.op "&&" (.var "$a") (.var "$b")) (.var "$c")) = some true) ∧
    ∃ truth, ((interpret
      (some fun _ key => if key = "$b" then .error "none" else .ok (if key = "$a" then .fails 1 else .holds))
      (.op "&&" (.var "$a") (.var "$c"))).interpretation.run {}).1.outcome = .ok (truth : Truth Nat) := by
  have disjunction : IsPropositional (.op "||" (.op "&&" (.var "$a") (.var "$b")) (.var "$c")) := by
    simp [IsPropositional]
  have conjunction : IsPropositional (.op "&&" (.var "$a") (.var "$c")) := by
    simp [IsPropositional]
  have holds : ((interpret
      (some fun _ key => if key = "$b" then .error "none" else .ok (if key = "$a" then .fails 1 else .holds))
      (.op "||" (.op "&&" (.var "$a") (.var "$b")) (.var "$c"))).interpretation.run {}).1.outcome =
        .ok (.holds : Truth Nat) := by
    obtain ⟨_, evaluates⟩ := exists_evaluates_interpret
      (some fun _ key => if key = "$b" then .error "none" else .ok (if key = "$a" then .fails 1 else .holds))
      (.op "||" (.op "&&" (.var "$a") (.var "$b")) (.var "$c")) []
    rw [interpretation_of_evaluates evaluates]
    rfl
  have answered : ∀ key ∈ (Expr.op "&&" (.var "$a") (.var "$c")).keys .var, ∃ truth,
      (if key = "$b" then .error "none" else .ok (if key = "$a" then .fails 1 else .holds) :
        Except String (Truth Nat)) = .ok truth := by
    simp [Expr.keys]
  exact ⟨disjunction, holds, (outcome_is_truthValue _ _ disjunction {}).2 _ holds,
    (outcome_is_truthValue _ _ conjunction {}).1 answered⟩

end Formula.Boolean
