import Formula.Proofs.Evaluation.Arithmetic
import Formula.Proofs.Evaluation.Boolean

/-!
# Resolvers that give the same answers

Which variables an evaluation looks up is decided on the way, by the answers to those before. Two evaluations
of a tree stay side by side as long as their lookups are answered alike (`Follows`), and nothing else of their
resolvers can tell them apart (`interpret_dependsOnLookups`).
-/

namespace Formula

section Follows

variable {α β : Type} {alike : String → Prop}

/-- Behind the same lookups, `second` ends as `first` does if the keys that `first` looks up are `alike`. -/
def Follows (alike : String → Prop) (first second : List String → Ending α) : Prop :=
  ∀ asked, ∃ looked, (first asked).2 = looked ++ asked ∧
    ((∀ key ∈ looked, alike key) → second asked = first asked)

theorem Follows.of_eq (outcome : Except EvaluationError α) :
    Follows alike (fun asked => (outcome, asked)) (fun asked => (outcome, asked)) :=
  fun _ => ⟨[], rfl, fun _ => rfl⟩

theorem Follows.andThen {first second : List String → Ending α} {next other : α → List String → Ending β}
    (before : Follows alike first second) (after : ∀ value, Follows alike (next value) (other value)) :
    Follows alike (fun asked => (first asked).andThen next) (fun asked => (second asked).andThen other) := by
  intro asked
  obtain ⟨looked, reached, same⟩ := before asked
  dsimp only
  cases ended : first asked with
  | mk outcome later =>
    rw [ended] at reached same
    cases outcome with
    | error e =>
      refine ⟨looked, reached, fun keys => ?_⟩
      rw [same keys]
      rfl
    | ok value =>
      obtain ⟨more, further, sameToo⟩ := after value later
      refine ⟨more ++ looked, ?_, fun keys => ?_⟩
      · rw [Ending.andThen, further, show later = looked ++ asked from reached, List.append_assoc]
      · obtain ⟨keysAfter, keysBefore⟩ := List.forall_mem_append.mp keys
        rw [same keysBefore]
        exact sameToo keysAfter

/-- A resolver, or none, makes of a key what `resolver` makes of it. -/
def AnswersAlike (resolver : Resolver α) (other? : Option (Resolver α)) (key : String) : Prop :=
  ∀ asked, consult other? key asked = consult (some resolver) key asked

theorem follows_consult (resolver : Resolver α) (other? : Option (Resolver α)) (key : String) :
    Follows (AnswersAlike resolver other?) (consult (some resolver) key) (consult other? key) :=
  fun asked => ⟨[key], rfl, fun same => same key (List.mem_singleton_self key) asked⟩

/-- What an evaluation comes to depends on the answers to its own lookups. Without lookups, it comes to the same
with any resolver and with none. -/
def DependsOnLookups (evaluation : Option (Resolver α) → EvalM α) : Prop :=
  ∀ (answers : String → Except String α) (log : Log) (run : Interpretation α),
    ((evaluation (some fun _ => answers)).interpretation.run log).1 = run →
      (∀ others : String → Except String α, (∀ key ∈ run.visited, others key = answers key) →
        ((evaluation (some fun _ => others)).interpretation.run log).1 = run) ∧
      (run.visited = [] → ∀ resolver?, ((evaluation resolver?).interpretation.run log).1 = run)

theorem dependsOnLookups_of_follows {evaluation : Option (Resolver α) → EvalM α}
    {ending : Option (Resolver α) → List String → Ending α}
    (evaluates : ∀ resolver?, ∃ events, Evaluates (evaluation resolver?) [] (ending resolver? []) events)
    (follows : ∀ resolver other?, Follows (AnswersAlike resolver other?) (ending (some resolver)) (ending other?)) :
    DependsOnLookups evaluation := by
  rintro answers log _ rfl
  have comesTo (resolver? : Option (Resolver α)) : ((evaluation resolver?).interpretation.run log).1 =
      ⟨(ending resolver? []).1, (ending resolver? []).2.reverse⟩ := by
    obtain ⟨_, evaluates⟩ := evaluates resolver?
    exact interpretation_of_evaluates evaluates log
  simp only [comesTo]
  constructor
  · intro others agree
    obtain ⟨looked, reached, same⟩ := follows (fun _ => answers) (some fun _ => others) []
    rw [same]
    intro key member asked
    rw [consult, consult, agree key (by simpa [reached] using member)]
  · intro none resolver?
    obtain ⟨looked, reached, same⟩ := follows (fun _ => answers) resolver? []
    have empty : looked = [] := by simpa [reached] using none
    rw [same (by simp [empty])]

end Follows

theorem Arithmetic.follows_denote (table? : Option OperatorTable) (resolver : Resolver Int64)
    (other? : Option (Resolver Int64)) (e : Expr) :
    Follows (AnswersAlike resolver other?) (denote table? (some resolver) e) (denote table? other? e) := by
  induction e with
  | op key left right ihLeft ihRight =>
    cases table? with
    | none => exact .of_eq (.error (.missingOperatorTable key))
    | some table => exact ihLeft.andThen fun first => ihRight.andThen fun second => .of_eq _
  | var key => exact follows_consult resolver other? key
  | int key => exact .of_eq _

theorem Boolean.follows_shortCircuit {ρ : Type} (resolver : Resolver (Truth ρ))
    (other? : Option (Resolver (Truth ρ))) (e : Expr) :
    Follows (AnswersAlike resolver other?) (shortCircuit (some resolver) e) (shortCircuit other? e) := by
  induction e with
  | op key left right ihLeft ihRight =>
    cases found : Connective.ofKey? key with
    | none =>
      rw [funext (shortCircuit_of_unknown (some resolver) found left right),
        funext (shortCircuit_of_unknown other? found left right)]
      exact .of_eq _
    | some connective =>
      rw [funext (shortCircuit_of_ofKey? (some resolver) found left right),
        funext (shortCircuit_of_ofKey? other? found left right)]
      apply ihLeft.andThen
      intro truth
      -- Both evaluations have come to the same truth, so both pass the right operand over or neither does.
      split
      · exact .of_eq _
      · exact ihRight
  | var key => exact follows_consult resolver other? key
  | int key => exact .of_eq _

/-- Resolvers that give the same answers to the lookups of a run cannot be told apart by it, in either language. -/
theorem interpret_dependsOnLookups {ρ : Type} (e : Expr) :
    (∀ table?, DependsOnLookups fun resolver? => Arithmetic.interpret table? resolver? e) ∧
      DependsOnLookups fun (resolver? : Option (Resolver (Truth ρ))) => Boolean.interpret resolver? e := by
  constructor
  · intro table?
    exact dependsOnLookups_of_follows (fun resolver? => Arithmetic.exists_evaluates_interpret table? resolver? e [])
      fun resolver other? => Arithmetic.follows_denote table? resolver other? e
  · exact dependsOnLookups_of_follows (fun resolver? => Boolean.exists_evaluates_interpret resolver? e [])
      fun resolver other? => Boolean.follows_shortCircuit resolver other? e

/-- Another answer for a variable that is passed over, and any resolver for one that is not reached. -/
theorem runs_beside_other_answers :
    ((Boolean.interpret (some fun _ key => if key = "$a" then .ok (.fails 1) else .error "none")
        (.op "&&" (.var "$a") (.var "$b"))).interpretation.run {}).1 =
      (⟨.ok (.fails 1), ["$a"]⟩ : Interpretation (Truth Nat)) ∧
    ((Boolean.interpret (some fun _ key => .ok (if key = "$a" then .fails 1 else .holds))
        (.op "&&" (.var "$a") (.var "$b"))).interpretation.run {}).1 =
      (⟨.ok (.fails 1), ["$a"]⟩ : Interpretation (Truth Nat)) ∧
    ∀ resolver?, ((Arithmetic.interpret (some Arithmetic.apply) resolver?
        (.op "+" (.op "/" (.int "1") (.int "0")) (.var "$x"))).interpretation.run {}).1 =
      ⟨.error (.divisionByZero "/" 1 0), []⟩ := by
  have falsity : ((Boolean.interpret (some fun _ key => if key = "$a" then .ok (.fails 1) else .error "none")
      (.op "&&" (.var "$a") (.var "$b"))).interpretation.run {}).1 =
        (⟨.ok (.fails 1), ["$a"]⟩ : Interpretation (Truth Nat)) := by
    obtain ⟨_, evaluates⟩ := Boolean.exists_evaluates_interpret
      (some fun _ key => if key = "$a" then .ok (.fails (1 : Nat)) else .error "none")
      (.op "&&" (.var "$a") (.var "$b")) []
    rw [interpretation_of_evaluates evaluates]
    rfl
  have zero : ((Arithmetic.interpret (some Arithmetic.apply) (some fun _ _ => .ok 0)
      (.op "+" (.op "/" (.int "1") (.int "0")) (.var "$x"))).interpretation.run {}).1 =
        ⟨.error (.divisionByZero "/" 1 0), []⟩ := by
    obtain ⟨_, evaluates⟩ := Arithmetic.exists_evaluates_interpret (some Arithmetic.apply)
      (some fun _ _ => .ok 0) (.op "+" (.op "/" (.int "1") (.int "0")) (.var "$x")) []
    rw [interpretation_of_evaluates evaluates]
    rfl
  have agree : ∀ key ∈ ["$a"], (.ok (if key = "$a" then .fails 1 else .holds) : Except String (Truth Nat)) =
      if key = "$a" then .ok (.fails 1) else .error "none" := by
    simp
  exact ⟨falsity, ((interpret_dependsOnLookups _).2 _ {} _ falsity).1 _ agree,
    ((@interpret_dependsOnLookups Nat _).1 _ _ {} _ zero).2 rfl⟩

end Formula
