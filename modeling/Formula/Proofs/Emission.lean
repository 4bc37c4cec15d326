import Formula.Resolver

/-!
# What work sends to the log

Work never looks at the log it writes to. `Emits` says what it gives and which messages it sends, on every
log alike, and is carried through the steps of work that may fail and of work that keeps its lookups.
-/

namespace Formula

/-- A message on its way to a log. -/
structure Event where
  channel : Channel
  level : Int
  message : String
  deriving DecidableEq, Repr

namespace Event

/-- What `logFailure` sends. -/
def failure (message : String) : Event := ⟨.error, 1, message⟩

/-- What `logStep` sends. -/
def step (message : String) : Event := ⟨.debug, 5, message⟩

end Event

/-- The log once some messages have been sent to it. -/
def Log.record (log : Log) (events : List Event) : Log :=
  events.foldl (fun log event => log.write event.channel event.level event.message) log

theorem Log.record_append (log : Log) (first second : List Event) :
    log.record (first ++ second) = (log.record first).record second :=
  List.foldl_append

/-- On every log, `work` gives `value` and sends `events`. -/
def Emits {α : Type} (work : LogM α) (value : α) (events : List Event) : Prop :=
  ∀ log, work log = (value, log.record events)

namespace Emits

variable {ε α β : Type}

theorem value_eq {work : LogM α} {value : α} {events : List Event} (emits : Emits work value events)
    (log : Log) : (work log).1 = value := by
  rw [emits log]

theorem pure (value : α) : Emits (Pure.pure value) value [] := fun _ => rfl

theorem logFailure (message : String) : Emits (logFailure message) () [.failure message] := fun _ => rfl

theorem logStep (message : String) : Emits (logStep message) () [.step message] := fun _ => rfl

theorem bind {work : LogM α} {next : α → LogM β} {value : α} {result : β} {first second : List Event}
    (before : Emits work value first) (after : Emits (next value) result second) :
    Emits (work >>= next) result (first ++ second) := by
  intro log
  have split : (work >>= next) log = next (work log).1 (work log).2 := rfl
  rw [split, before log, after (log.record first), Log.record_append]

/-! ### Work that may fail -/

section Failing

variable {work : ExceptT ε LogM α} {next : α → ExceptT ε LogM β} {first second : List Event}

theorem return_ok (value : α) : Emits (Pure.pure value : ExceptT ε LogM α).run (.ok value) [] :=
  fun _ => rfl

theorem throw (e : ε) : Emits (throw e : ExceptT ε LogM α).run (.error e) [] := fun _ => rfl

theorem lift {work : LogM α} {value : α} (emits : Emits work value first) :
    Emits (liftM work : ExceptT ε LogM α).run (.ok value) first := by
  intro log
  have split : (liftM work : ExceptT ε LogM α).run log = (.ok (work log).1, (work log).2) := rfl
  rw [split, emits log]

theorem bind_ok {value : α} {result : Except ε β} (before : Emits work.run (.ok value) first)
    (after : Emits (next value).run result second) :
    Emits (work >>= next).run result (first ++ second) := by
  rw [ExceptT.run_bind]
  exact before.bind after

theorem bind_error {e : ε} (before : Emits work.run (.error e) first) :
    Emits (work >>= next).run (.error e) first := by
  rw [ExceptT.run_bind, ← List.append_nil first]
  exact before.bind (Emits.pure _)

end Failing

end Emits

end Formula
