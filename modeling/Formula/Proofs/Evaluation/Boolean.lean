import Formula.Boolean
import Formula.Proofs.Evaluation.Ending

/-!
# The walk of a boolean evaluation

A frame of `walk` keeps a right operand that may still be needed. A value on its way up either passes the
frame, when it decides the operator, or gives way to the right operand, whose frame is then already gone.
Going down into a tree comes to the same as evaluating the tree by recursion and going up with its truth
(`walk_down`), whatever the frames are.
-/

namespace Formula.Boolean

variable {ρ : Type} (resolver? : Option (Resolver (Truth ρ)))

namespace Connective

theorem ofKey?_eq_some_iff {key : String} {connective : Connective} :
    ofKey? key = some connective ↔ key = match connective with | .and => "&&" | .or => "||" := by
  constructor
  · intro found
    unfold ofKey? at found
    split at found
    · cases found
      rfl
    · cases found
      rfl
    · cases found
  · rintro rfl
    cases connective <;> rfl

theorem ofKey?_eq_none_iff {key : String} : ofKey? key = none ↔ key ≠ "&&" ∧ key ≠ "||" := by
  unfold ofKey?
  split <;> simp_all

end Connective

theorem exists_connective {key : String} (known : key = "&&" ∨ key = "||") :
    ∃ connective, Connective.ofKey? key = some connective := by
  rcases known with rfl | rfl
  · exact ⟨.and, rfl⟩
  · exact ⟨.or, rfl⟩

/-- The truth of a tree, by recursion on it. -/
def evaluate : Expr → EvalM (Truth ρ)
  | .op key left right =>
    match Connective.ofKey? key with
    | none => do
      logFailure s!"Undefined op: {key}"
      throw (.unknownOperator key)
    | some connective => do
      let truth ← evaluate left
      if connective.isDecidedBy truth then do
        logStep connective.skipLine
        return truth
      else
        evaluate right
  | .var key => EvalM.lookUp resolver? key
  | .int key => throw (.unexpectedNode .int key)

theorem walk_down (e : Expr) (frames : List Frame) :
    walk resolver? (.down e) frames
      = evaluate resolver? e >>= fun truth => walk resolver? (.up truth) frames := by
  induction e generalizing frames with
  | op key left right left_ih right_ih =>
    rw [walk, evaluate]
    cases Connective.ofKey? key with
    | none => simp only [bind_assoc, EvalM.throw_bind]
    | some connective =>
      simp only [left_ih, bind_assoc]
      congr 1
      funext truth
      rw [walk]
      -- The frame is used up either way: passed, or left for the right operand.
      split
      · simp only [bind_assoc, pure_bind]
      · exact right_ih frames
  | var key => rw [walk, evaluate]
  | int key => rw [walk, evaluate, EvalM.throw_bind]

theorem interpret_eq_evaluate (e : Expr) : interpret resolver? e = evaluate resolver? e := by
  have ends : (fun truth => walk resolver? (.up truth) []) = pure := by
    funext truth
    rw [walk]
  rw [interpret, walk_down, ends, bind_pure]

/-- What a tree comes to behind the lookups `asked`. A left operand that decides the operator is its outcome,
and the right operand is passed over with all that could happen in it. -/
def shortCircuit : Expr → List String → Ending (Truth ρ)
  | .op key left right, asked =>
    if key = "&&" then
      (shortCircuit left asked).andThen fun truth asked =>
        match truth with
        | .holds => shortCircuit right asked
        | .fails reason => (.ok (.fails reason), asked)
    else if key = "||" then
      (shortCircuit left asked).andThen fun truth asked =>
        match truth with
        | .holds => (.ok .holds, asked)
        | .fails _ => shortCircuit right asked
    else (.error (.unknownOperator key), asked)
  | .var key, asked => consult resolver? key asked
  | .int key, asked => (.error (.unexpectedNode .int key), asked)

theorem shortCircuit_of_unknown {key : String} (unknown : Connective.ofKey? key = none) (left right : Expr)
    (asked : List String) :
    shortCircuit resolver? (.op key left right) asked = (.error (.unknownOperator key), asked) := by
  obtain ⟨notAnd, notOr⟩ := Connective.ofKey?_eq_none_iff.mp unknown
  rw [shortCircuit, if_neg notAnd, if_neg notOr]

theorem shortCircuit_of_ofKey? {key : String} {connective : Connective}
    (found : Connective.ofKey? key = some connective) (left right : Expr) (asked : List String) :
    shortCircuit resolver? (.op key left right) asked
      = (shortCircuit resolver? left asked).andThen fun truth asked =>
        if connective.isDecidedBy truth then (.ok truth, asked) else shortCircuit resolver? right asked := by
  rw [Connective.ofKey?_eq_some_iff] at found
  subst found
  cases connective with
  | and =>
    rw [shortCircuit, if_pos rfl]
    refine congrArg (Ending.andThen _) (funext fun truth => ?_)
    cases truth <;> rfl
  | or =>
    rw [shortCircuit, if_neg (by decide), if_pos rfl]
    refine congrArg (Ending.andThen _) (funext fun truth => ?_)
    cases truth <;> rfl

theorem exists_evaluates_decided {connective : Connective} (truth : Truth ρ) {right : EvalM (Truth ρ)}
    {asked : List String} {ending : Ending (Truth ρ)}
    (reached : ∃ events, Evaluates right asked ending events) :
    ∃ events, Evaluates
      (if connective.isDecidedBy truth then do
        logStep connective.skipLine
        return truth
      else right)
      asked (if connective.isDecidedBy truth then (.ok truth, asked) else ending) events := by
  split
  · exact ⟨_, (Evaluates.logStep _ asked).bind_ok (.return_ok truth asked)⟩
  · exact reached

theorem exists_evaluates_evaluate (e : Expr) (asked : List String) :
    ∃ events, Evaluates (evaluate resolver? e) asked (shortCircuit resolver? e asked) events := by
  induction e generalizing asked with
  | op key left right left_ih right_ih =>
    rw [evaluate]
    cases found : Connective.ofKey? key with
    | none =>
      rw [shortCircuit_of_unknown resolver? found]
      exact ⟨_, (Evaluates.logFailure _ asked).bind_ok (.throw _ asked)⟩
    | some connective =>
      rw [shortCircuit_of_ofKey? resolver? found]
      obtain ⟨_, reached⟩ := left_ih asked
      refine reached.andThen fun truth asked => ?_
      exact exists_evaluates_decided truth (right_ih asked)
  | var key => exact exists_evaluates_lookUp resolver? key asked
  | int key => exact ⟨_, .throw _ asked⟩

theorem exists_evaluates_interpret (e : Expr) (asked : List String) :
    ∃ events, Evaluates (interpret resolver? e) asked (shortCircuit resolver? e asked) events := by
  rw [interpret_eq_evaluate]
  exact exists_evaluates_evaluate resolver? e asked

/-- On every log, the outcome and the lookups in their order are those of the recursion. -/
theorem interpretation_eq_shortCircuit (e : Expr) (log : Log) :
    ((interpret resolver? e).interpretation.run log).1
      = ⟨(shortCircuit resolver? e []).1, (shortCircuit resolver? e []).2.reverse⟩ := by
  rw [interpret_eq_evaluate]
  obtain ⟨_, evaluates⟩ := exists_evaluates_evaluate resolver? e []
  exact interpretation_of_evaluates evaluates log

end Formula.Boolean
