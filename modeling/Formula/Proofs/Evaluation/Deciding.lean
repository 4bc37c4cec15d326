import Formula.Proofs.Evaluation.Boolean

/-!
# The operand that decides

Operators make no truths and no refusals of their own: what a boolean evaluation ends with was answered by its
resolver, and answered last. A left operand that decides passes over nothing but operands still to come, and
one that does not decide is forgotten, reason included, for an operand that is looked up behind it.
-/

namespace Formula.Boolean

variable {ρ : Type} {resolver? : Option (Resolver (Truth ρ))}

/-- The last of the lookups `visited` was answered by `answer`. -/
def LastAnswer {α : Type} (resolver? : Option (Resolver α)) (visited : List String)
    (answer : Except String α) : Prop :=
  ∃ resolver earlier key, resolver? = some resolver ∧ visited = earlier ++ [key] ∧
    resolver earlier.reverse key = answer

/-- If the ending is an answer of the resolver, it is the last one. -/
def Settled {α : Type} (resolver? : Option (Resolver α)) (ending : Ending α) : Prop :=
  ∀ answer, ending.1 = answer.mapError .resolver → LastAnswer resolver? ending.2.reverse answer

section Settled

variable {α β : Type} {resolver? : Option (Resolver α)}

theorem mapError_resolver_injective {answer other : Except String α}
    (same : answer.mapError EvaluationError.resolver = other.mapError .resolver) : answer = other := by
  cases answer with
  | ok value =>
    cases other with
    | ok => rw [Except.ok.inj same]
    | error => cases same
  | error text =>
    cases other with
    | ok => cases same
    | error => rw [EvaluationError.resolver.inj (Except.error.inj same)]

theorem settled_error {error : EvaluationError} (own : ∀ text, error ≠ .resolver text) (asked : List String) :
    Settled resolver? (.error error, asked) := by
  intro answer ended
  cases answer with
  | ok value => cases ended
  | error text => exact absurd (Except.error.inj ended) (own text)

theorem settled_consult (key : String) (asked : List String) :
    Settled resolver? (consult resolver? key asked) := by
  cases resolver? with
  | none => exact settled_error (by simp) asked
  | some resolver =>
    intro answer ended
    refine ⟨resolver, asked.reverse, key, rfl, List.reverse_cons, ?_⟩
    rw [List.reverse_reverse]
    exact mapError_resolver_injective ended

/-- An error is settled as it was. Of a value, what goes on behind it has to see to that. -/
theorem Settled.andThen {ending : Ending α} {next : α → List String → Ending α}
    (settled : Settled resolver? ending)
    (goesOn : ∀ value asked, ending = (.ok value, asked) → Settled resolver? (next value asked)) :
    Settled resolver? (ending.andThen next) := by
  obtain ⟨outcome, asked⟩ := ending
  cases outcome with
  | ok value => exact goesOn value asked rfl
  | error error => exact settled

end Settled

theorem settled_shortCircuit (e : Expr) (asked : List String) :
    Settled resolver? (shortCircuit resolver? e asked) := by
  induction e generalizing asked with
  | op key left right left_ih right_ih =>
    cases found : Connective.ofKey? key with
    | none =>
      rw [shortCircuit_of_unknown resolver? found]
      exact settled_error (by simp) asked
    | some connective =>
      rw [shortCircuit_of_ofKey? resolver? found]
      apply (left_ih asked).andThen
      intro truth later reached
      by_cases decides : connective.isDecidedBy truth = true
      · -- Nothing has been looked up since the left operand.
        rw [if_pos decides, ← reached]
        exact left_ih asked
      · rw [if_neg decides]
        exact right_ih later
  | var key => exact settled_consult key asked
  | int key => exact settled_error (by simp) asked

/-- A truth that a formula comes to is what its resolver answered last, reason included, and so is the text of
a refusal that it ends with. -/
theorem outcome_is_last_answer (resolver? : Option (Resolver (Truth ρ))) (e : Expr) (log : Log)
    {run : Interpretation (Truth ρ)} (ran : ((interpret resolver? e).interpretation.run log).1 = run) :
    (∀ truth, run.outcome = .ok truth → LastAnswer resolver? run.visited (.ok truth)) ∧
      ∀ text, run.outcome = .error (.resolver text) → LastAnswer resolver? run.visited (.error text) := by
  obtain ⟨_, evaluates⟩ := exists_evaluates_interpret resolver? e []
  rw [interpretation_of_evaluates evaluates] at ran
  subst ran
  have settled : Settled resolver? (shortCircuit resolver? e []) := settled_shortCircuit e []
  constructor
  · intro truth outcome
    exact settled (.ok truth) outcome
  · intro text outcome
    exact settled (.error text) outcome

/-- Two falsities, of which the second one's reason remains, and a variable that is refused when it is asked
for once more. -/
theorem outcome_of_second_falsity :
    (((interpret (some (.scripted [("$a", [.ok (.fails 1)]), ("$b", [.ok .holds]), ("$c", [.ok (.fails 3)])]))
        (.op "&&" (.op "||" (.var "$a") (.var "$b")) (.var "$c"))).interpretation.run {}).1 =
          (⟨.ok (.fails 3), ["$a", "$b", "$c"]⟩ : Interpretation (Truth Nat)) ∧
      LastAnswer
        (some (.scripted [("$a", [.ok (Truth.fails 1)]), ("$b", [.ok .holds]), ("$c", [.ok (.fails 3)])]))
        ["$a", "$b", "$c"] (.ok (.fails 3))) ∧
    ((interpret (some (.scripted [("$a", [.ok (.fails 1), .error "spent"])]))
        (.op "||" (.var "$a") (.var "$a"))).interpretation.run {}).1 =
          (⟨.error (.resolver "spent"), ["$a", "$a"]⟩ : Interpretation (Truth Nat)) ∧
      LastAnswer (some (.scripted [("$a", [.ok (Truth.fails 1), .error "spent"])])) ["$a", "$a"]
        (.error "spent") := by
  have falsity : ((interpret
      (some (.scripted [("$a", [.ok (.fails 1)]), ("$b", [.ok .holds]), ("$c", [.ok (.fails 3)])]))
      (.op "&&" (.op "||" (.var "$a") (.var "$b")) (.var "$c"))).interpretation.run {}).1 =
        (⟨.ok (.fails 3), ["$a", "$b", "$c"]⟩ : Interpretation (Truth Nat)) := by
    obtain ⟨_, evaluates⟩ := exists_evaluates_interpret
      (some (.scripted [("$a", [.ok (.fails 1)]), ("$b", [.ok .holds]), ("$c", [.ok (.fails (3 : Nat))])]))
      (.op "&&" (.op "||" (.var "$a") (.var "$b")) (.var "$c")) []
    rw [interpretation_of_evaluates evaluates]
    rfl
  have refusal : ((interpret (some (.scripted [("$a", [.ok (.fails 1), .error "spent"])]))
      (.op "||" (.var "$a") (.var "$a"))).interpretation.run {}).1 =
        (⟨.error (.resolver "spent"), ["$a", "$a"]⟩ : Interpretation (Truth Nat)) := by
    obtain ⟨_, evaluates⟩ := exists_evaluates_interpret
      (some (.scripted [("$a", [.ok (.fails (1 : Nat)), .error "spent"])])) (.op "||" (.var "$a") (.var "$a")) []
    rw [interpretation_of_evaluates evaluates]
    rfl
  exact ⟨⟨falsity, (outcome_is_last_answer _ _ {} falsity).1 _ rfl⟩,
    refusal, (outcome_is_last_answer _ _ {} refusal).2 _ rfl⟩

end Formula.Boolean
