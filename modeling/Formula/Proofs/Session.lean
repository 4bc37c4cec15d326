import Formula.Session
import Formula.Proofs.Build

/-!
# Steps of a session

What a step does to the slots is decided by the slots, whatever stands on the log (`Step.steady`). A step that
fails leaves every slot as it was (`Step.slots_of_failure`). So a session could do without the steps that fail: those
that succeed leave the same slots by themselves (`slots_run_succeeding`).
-/

namespace Formula.Session

variable {α β : Type}

/-- Trees under the names of their slots. -/
abbrev Slots := List (String × Expr)

/-- What can be asked of a session. -/
inductive Step : Type 1 where
  | build (language : Language) (source : String) (dropSigil : Bool) (into : String)
  | load (tree : Expr) (into : String)
  | join (key left right into : String)
  | fetch (slot : String)
  | extract (slot : String) (path : List Expr.Side) (into : String)
  | drop (slot : String)
  | interpret {α : Type} (slot : String) (meaning : Expr → EvalM α)
  | equal (left right : String)
  | reparse (slot : String) (language : Language) (dropSigil : Bool)
  | persist (slot : String)
  | setVerbosity (verbosity : Int)
  | setColored (colored : Bool)
  | write (channel : Channel) (level : Int) (message : String)

/-- Takes a step and forgets its answer. -/
def Step.perform : Step → SessionM Unit
  | .build language source dropSigil into => do let _ ← Session.build language source dropSigil into
  | .load tree into => do let _ ← Session.load tree into
  | .join key left right into => do let _ ← Session.join key left right into
  | .fetch slot => do let _ ← Session.fetch slot
  | .extract slot path into => do let _ ← Session.extract slot path into
  | .drop slot => do let _ ← Session.drop slot
  | .interpret slot meaning => do let _ ← Session.interpret slot meaning
  | .equal left right => do let _ ← Session.equal left right
  | .reparse slot language dropSigil => do let _ ← Session.reparse slot language dropSigil
  | .persist slot => do let _ ← Session.persist slot
  | .setVerbosity verbosity => do let _ ← Session.setVerbosity verbosity
  | .setColored colored => Session.setColored colored
  | .write channel level message => logged (emit channel level message)

/-! ### What is left of the slots -/

theorem run_bind (work : SessionM α) (next : α → SessionM β) (session : Session) :
    (work >>= next).run session = ExceptT.bindCont next (work.run session).1 (work.run session).2 := rfl

/-- On every log, `work` makes `left` of the slots and ends in `result`. -/
def Leaves (work : SessionM α) (slots : Slots) (result : Except Failure α) (left : Slots) : Prop :=
  ∀ log, ∃ later, work.run ⟨slots, log⟩ = (result, ⟨left, later⟩)

section Leaves

variable {work : SessionM α} {next : α → SessionM β} {slots middle left : Slots}

theorem Leaves.run_eq {session : Session} {result : Except Failure α}
    (leaves : Leaves work session.slots result left) : ∃ later, work.run session = (result, ⟨left, later⟩) :=
  leaves session.log

theorem Leaves.pure (value : α) : Leaves (pure value) slots (.ok value) slots := fun log => ⟨log, rfl⟩

theorem Leaves.throw (failure : Failure) : Leaves (throw failure : SessionM α) slots (.error failure) slots :=
  fun log => ⟨log, rfl⟩

theorem Leaves.bind_ok {value : α} {result : Except Failure β} (before : Leaves work slots (.ok value) middle)
    (after : Leaves (next value) middle result left) : Leaves (work >>= next) slots result left := by
  intro log
  obtain ⟨between, first⟩ := before log
  obtain ⟨later, second⟩ := after between
  refine ⟨later, ?_⟩
  rw [run_bind, first]
  exact second

theorem Leaves.bind_error {failure : Failure} (before : Leaves work slots (.error failure) left) :
    Leaves (work >>= next) slots (.error failure) left := by
  intro log
  obtain ⟨later, first⟩ := before log
  refine ⟨later, ?_⟩
  rw [run_bind, first]
  rfl

end Leaves

/-- The slots decide how `work` ends and what it makes of them. If it fails, that is what they were. -/
def Steady (work : SessionM α) : Prop :=
  ∀ slots, ∃ result left, Leaves work slots result left ∧ ∀ failure, result = .error failure → left = slots

/-- The slots decide how `work` ends, and they stay. -/
def Reads (work : SessionM α) : Prop := ∀ slots, ∃ result, Leaves work slots result slots

section Rules

variable {work : SessionM α} {next : α → SessionM β}

theorem Reads.steady (reads : Reads work) : Steady work := by
  intro slots
  obtain ⟨result, leaves⟩ := reads slots
  exact ⟨result, slots, leaves, fun _ _ => rfl⟩

theorem Reads.pure (value : α) : Reads (pure value) := fun _ => ⟨_, .pure value⟩

theorem Reads.bind (first : Reads work) (second : ∀ value, Reads (next value)) : Reads (work >>= next) := by
  intro slots
  obtain ⟨failure | value, leaves⟩ := first slots
  · exact ⟨_, leaves.bind_error⟩
  · obtain ⟨result, onward⟩ := second value slots
    exact ⟨result, leaves.bind_ok onward⟩

/-- Nothing is lost if the slots are only read before something steady is done. -/
theorem Reads.bind_steady (first : Reads work) (second : ∀ value, Steady (next value)) :
    Steady (work >>= next) := by
  intro slots
  obtain ⟨failure | value, leaves⟩ := first slots
  · exact ⟨_, slots, leaves.bind_error, fun _ _ => rfl⟩
  · obtain ⟨result, left, onward, kept⟩ := second value slots
    exact ⟨result, left, leaves.bind_ok onward, kept⟩

/-- What cannot fail may come behind something steady. -/
theorem Steady.bind_pure (steady : Steady work) (f : α → β) : Steady (work >>= fun value => pure (f value)) := by
  intro slots
  obtain ⟨failure | value, left, leaves, kept⟩ := steady slots
  · exact ⟨_, left, leaves.bind_error, fun _ _ => kept failure rfl⟩
  · exact ⟨_, left, leaves.bind_ok (.pure (f value)), nofun⟩

end Rules

/-! ### Steps -/

theorem reads_fetch (slot : String) : Reads (fetch slot) := by
  intro slots
  refine ⟨(slots.lookup slot).elim (.error .noSuchSlot) .ok, fun log => ⟨log, ?_⟩⟩
  have got : (get : SessionM Session).run ⟨slots, log⟩ = (.ok ⟨slots, log⟩, ⟨slots, log⟩) := rfl
  rw [fetch, run_bind, got]
  dsimp only [ExceptT.bindCont]
  cases slots.lookup slot with
  | none => rfl
  | some tree => rfl

theorem leaves_logged {work : LogM α} {value : α} {events : List Event} (emits : Emits work value events)
    (slots : Slots) : Leaves (logged work) slots (.ok value) slots := by
  intro log
  have run : (logged work).run ⟨slots, log⟩ = (.ok (work log).1, ⟨slots, (work log).2⟩) := rfl
  rw [run, emits log]
  exact ⟨_, rfl⟩

/-- A build does not look at the log that it writes to. -/
theorem reads_built (language : Language) (source : String) (dropSigil : Bool) :
    Reads (built (language.build source dropSigil)) := by
  obtain ⟨result, events, emits⟩ := language.exists_emits_build source dropSigil
  intro slots
  have logged := leaves_logged emits slots
  cases result with
  | ok tree => exact ⟨_, logged.bind_ok (.pure tree)⟩
  | error e => exact ⟨_, logged.bind_ok (.throw (.build e))⟩

theorem steady_store (slot : String) (tree : Expr) : Steady (store slot tree) := fun slots =>
  ⟨.ok (), (slot, tree) :: slots.filter (fun entry => entry.1 != slot), fun log => ⟨log, rfl⟩, nofun⟩

theorem steady_load (tree : Expr) (into : String) : Steady (load tree into) :=
  (steady_store into tree).bind_pure fun _ => tree

theorem steady_extract (slot : String) (path : List Expr.Side) (into : String) :
    Steady (extract slot path into) := by
  refine (reads_fetch slot).bind_steady fun tree => ?_
  cases tree.at? path with
  | none => exact (Reads.pure none).steady
  | some subtree =>
    change Steady (some <$> load subtree into)
    rw [map_eq_pure_bind]
    exact (steady_load subtree into).bind_pure some

/-- What a meaning finds on the log may show in its answer, but not in the slots. -/
theorem reads_interpret (slot : String) (meaning : Expr → EvalM α) :
    Reads (interpret slot meaning >>= fun _ => pure ()) := by
  rw [interpret, bind_assoc]
  exact (reads_fetch slot).bind fun tree slots => ⟨.ok (), fun log => ⟨_, rfl⟩⟩

namespace Step

/-- The slots decide whether a step fails and what becomes of them, and a failure leaves them alone. -/
theorem steady (step : Step) : Steady step.perform := by
  cases step with
  | build language source dropSigil into =>
    have built := (reads_built language source dropSigil).bind_steady fun tree => steady_load tree into
    exact built.bind_pure fun _ => ()
  | load tree into => exact (steady_load tree into).bind_pure fun _ => ()
  | join key left right into =>
    have joined := (reads_fetch left).bind_steady fun first =>
      (reads_fetch right).bind_steady fun second => steady_load (.op key first second) into
    exact joined.bind_pure fun _ => ()
  | fetch slot => exact (reads_fetch slot).steady.bind_pure fun _ => ()
  | extract slot path into => exact (steady_extract slot path into).bind_pure fun _ => ()
  | drop slot =>
    exact fun slots => ⟨.ok (), slots.filter (fun entry => entry.1 != slot), fun log => ⟨log, rfl⟩, nofun⟩
  | interpret slot meaning => exact (reads_interpret slot meaning).steady
  | equal left right =>
    have compared := (reads_fetch left).bind fun first =>
      (reads_fetch right).bind fun second => .pure (decide (first = second))
    exact compared.steady.bind_pure fun _ => ()
  | reparse slot language dropSigil =>
    have again := (reads_fetch slot).bind fun tree =>
      (reads_built language tree.infixText dropSigil).bind fun again => .pure (again, decide (again = tree))
    exact again.steady.bind_pure fun _ => ()
  | persist slot =>
    have kept := (reads_fetch slot).bind fun tree =>
      .pure (tree.toDatum, decide (Expr.ofDatum? tree.toDatum = some tree))
    exact kept.steady.bind_pure fun _ => ()
  | setVerbosity verbosity => exact fun slots => ⟨.ok (), slots, fun log => ⟨_, rfl⟩, nofun⟩
  | setColored colored => exact fun slots => ⟨.ok (), slots, fun log => ⟨_, rfl⟩, nofun⟩
  | write channel level message => exact fun slots => ⟨.ok (), slots, fun log => ⟨_, rfl⟩, nofun⟩

theorem slots_of_failure {step : Step} {session after : Session} {failure : Failure}
    (failed : step.perform.run session = (.error failure, after)) : after.slots = session.slots := by
  obtain ⟨result, left, leaves, kept⟩ := step.steady session.slots
  obtain ⟨later, ran⟩ := leaves.run_eq
  cases ran.symm.trans failed
  exact kept failure rfl

end Step

/-! ### Runs -/

/-- The session behind some steps. It goes on behind a step that fails. -/
def run : List Step → Session → Session
  | [], session => session
  | step :: rest, session => run rest (step.perform.run session).2

/-- The steps of a run that succeed. -/
def succeeding : List Step → Session → List Step
  | [], _ => []
  | step :: rest, session =>
    match step.perform.run session with
    | (.ok (), after) => step :: succeeding rest after
    | (.error _, after) => succeeding rest after

/-- A step that fails could as well be left out, whatever the other steps are. -/
theorem slots_run_succeeding (steps : List Step) (session : Session) :
    (run (succeeding steps session) session).slots = (run steps session).slots := by
  -- Without the steps that fail the log is another one, so the two runs agree on the slots only.
  have agree : ∀ other : Session, other.slots = session.slots →
      (run (succeeding steps session) other).slots = (run steps session).slots := by
    induction steps generalizing session with
    | nil => exact fun other same => same
    | cons step rest ih =>
      intro other same
      obtain ⟨result, left, leaves, kept⟩ := step.steady session.slots
      obtain ⟨later, ran⟩ := leaves.run_eq
      rw [succeeding, run, ran]
      cases result with
      | ok value =>
        rw [← same] at leaves
        obtain ⟨latest, ranToo⟩ := leaves.run_eq
        dsimp only
        rw [run, ranToo]
        exact ih ⟨left, later⟩ ⟨left, latest⟩ rfl
      | error failure => exact ih ⟨left, later⟩ other (same.trans (kept failure rfl).symm)
  exact agree session rfl

end Formula.Session
