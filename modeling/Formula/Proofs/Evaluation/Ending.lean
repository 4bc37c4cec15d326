import Formula.Proofs.Emission

/-!
# Evaluations

An evaluation starts behind some lookups and ends with a value or an error behind some more. `Evaluates`
follows it step by step, as `Emits` follows work that keeps nothing, and `Ending.andThen` is how the endings
of one evaluation behind another combine.
-/

namespace Formula

variable {α β : Type}

theorem EvalM.throw_bind (e : EvaluationError) (next : α → EvalM β) :
    (throw e : EvalM α) >>= next = throw e := rfl

/-- Where an evaluation ends: its value or its error, and the keys it has looked up, the latest first. -/
abbrev Ending (α : Type) := Except EvaluationError α × List String

/-- Goes on behind a value. An error ends everything, and nothing more is looked up. -/
def Ending.andThen (ending : Ending α) (next : α → List String → Ending β) : Ending β :=
  match ending with
  | (.ok value, asked) => next value asked
  | (.error e, asked) => (.error e, asked)

theorem Ending.eq_error_of_andThen {ending : Ending α} {next : α → List String → Ending β}
    {error : EvaluationError} {later : List String} (fails : ending.andThen next = (.error error, later)) :
    ending = (.error error, later) ∨
      ∃ value asked, ending = (.ok value, asked) ∧ next value asked = (.error error, later) := by
  obtain ⟨outcome, asked⟩ := ending
  cases outcome with
  | error e =>
    cases fails
    exact .inl rfl
  | ok value => exact .inr ⟨value, asked, rfl, fails⟩

theorem Ending.eq_ok_of_andThen {ending : Ending α} {next : α → List String → Ending β} {result : β}
    {later : List String} (ends : ending.andThen next = (.ok result, later)) :
    ∃ value asked, ending = (.ok value, asked) ∧ next value asked = (.ok result, later) := by
  obtain ⟨outcome, asked⟩ := ending
  cases outcome with
  | error e => cases ends
  | ok value => exact ⟨value, asked, rfl, ends⟩

/-- Behind the lookups `asked`, on every log, `work` comes to `ending` and sends `events`. -/
def Evaluates (work : EvalM α) (asked : List String) (ending : Ending α) (events : List Event) : Prop :=
  Emits (work.run.run asked) ending events

/-- What a resolver makes of a lookup. Without one there is no lookup. -/
def consult (resolver? : Option (Resolver α)) (key : String) (asked : List String) : Ending α :=
  match resolver? with
  | none => (.error (.missingResolver key), asked)
  | some resolver => ((resolver asked key).mapError .resolver, key :: asked)

namespace Evaluates

variable {work : EvalM α} {next : α → EvalM β} {asked later : List String} {first second : List Event}

theorem return_ok (value : α) (asked : List String) : Evaluates (pure value) asked (.ok value, asked) [] :=
  fun _ => rfl

theorem throw (e : EvaluationError) (asked : List String) :
    Evaluates (throw e : EvalM α) asked (.error e, asked) [] :=
  fun _ => rfl

theorem logFailure (message : String) (asked : List String) :
    Evaluates (liftM (Formula.logFailure message)) asked (.ok (), asked) [.failure message] :=
  fun _ => rfl

theorem logStep (message : String) (asked : List String) :
    Evaluates (liftM (Formula.logStep message)) asked (.ok (), asked) [.step message] :=
  fun _ => rfl

theorem get_bind {next : List String → EvalM α} {ending : Ending α}
    (evaluates : Evaluates (next asked) asked ending first) : Evaluates (get >>= next) asked ending first :=
  evaluates

theorem set_bind {ending : Ending α} (evaluates : Evaluates work later ending first) :
    Evaluates (set later >>= fun _ => work) asked ending first :=
  evaluates

theorem bind_ok {value : α} {ending : Ending β} (before : Evaluates work asked (.ok value, later) first)
    (after : Evaluates (next value) later ending second) :
    Evaluates (work >>= next) asked ending (first ++ second) := by
  rw [Evaluates, ExceptT.run_bind, StateT.run_bind]
  exact before.bind after

theorem bind_error {e : EvaluationError} (before : Evaluates work asked (.error e, later) first) :
    Evaluates (work >>= next) asked (.error e, later) first := by
  rw [Evaluates, ExceptT.run_bind, StateT.run_bind, ← List.append_nil first]
  exact before.bind (Emits.pure _)

/-- What follows needs to be known only behind the value that the work comes to. -/
theorem andThen {ending : Ending α} {rest : α → List String → Ending β}
    (before : Evaluates work asked ending first)
    (after : ∀ value later, ∃ events, Evaluates (next value) later (rest value later) events) :
    ∃ events, Evaluates (work >>= next) asked (ending.andThen rest) events := by
  obtain ⟨outcome, later⟩ := ending
  cases outcome with
  | error e => exact ⟨first, before.bind_error⟩
  | ok value =>
    obtain ⟨second, goesOn⟩ := after value later
    exact ⟨first ++ second, before.bind_ok goesOn⟩

end Evaluates

/-- A resolver is asked without a word. -/
theorem Evaluates.lookUp (resolver : Resolver α) (key : String) (asked : List String) :
    Evaluates (EvalM.lookUp (some resolver) key) asked (consult (some resolver) key asked) [] := by
  refine .get_bind (.set_bind ?_)
  rw [consult]
  -- The key counts as asked for whatever the answer is.
  cases resolver asked key with
  | ok value => exact .return_ok value (key :: asked)
  | error text => exact .throw (.resolver text) (key :: asked)

theorem exists_evaluates_lookUp (resolver? : Option (Resolver α)) (key : String) (asked : List String) :
    ∃ events, Evaluates (EvalM.lookUp resolver? key) asked (consult resolver? key asked) events := by
  cases resolver? with
  | none => exact ⟨_, (Evaluates.logFailure _ asked).bind_ok (.throw _ asked)⟩
  | some resolver => exact ⟨_, .lookUp resolver key asked⟩

theorem emits_interpretation {work : EvalM α} {ending : Ending α} {events : List Event}
    (evaluates : Evaluates work [] ending events) :
    Emits work.interpretation ⟨ending.1, ending.2.reverse⟩ events := by
  rw [← List.append_nil events]
  exact Emits.bind evaluates (.pure _)

/-- The outcome and the keys of an interpretation are those of the evaluation from its start. -/
theorem interpretation_of_evaluates {work : EvalM α} {ending : Ending α} {events : List Event}
    (evaluates : Evaluates work [] ending events) (log : Log) :
    (work.interpretation.run log).1 = ⟨ending.1, ending.2.reverse⟩ :=
  (emits_interpretation evaluates).value_eq log

end Formula
