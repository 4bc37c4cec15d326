import Formula.Expr.Display
import Formula.Expr.Record
import Formula.Language

/-!
# Sessions

A session keeps trees in named slots, and one log for all that is done with them. A step that fails
leaves every slot as it was.
-/

namespace Formula

structure Session where
  slots : List (String × Expr) := []
  log : Log := {}

/-- Why a step did nothing. -/
inductive Session.Failure where
  | noSuchSlot
  | build (e : BuildError)
  deriving DecidableEq, Repr

abbrev SessionM := ExceptT Session.Failure (StateM Session)

namespace Session

def logged {α : Type} (work : LogM α) : SessionM α :=
  modifyGet fun session =>
    let (result, log) := work session.log
    (result, { session with log })

def built (work : BuildM Expr) : SessionM Expr := do
  match ← logged work.run with
  | .ok tree => return tree
  | .error e => throw (.build e)

def fetch (slot : String) : SessionM Expr := do
  match (← get).slots.lookup slot with
  | some tree => return tree
  | none => throw .noSuchSlot

/-- Puts a tree into a slot in place of any before. -/
def store (slot : String) (tree : Expr) : SessionM Unit :=
  modify fun session =>
    { session with slots := (slot, tree) :: session.slots.filter (fun entry => entry.1 != slot) }

def build (language : Language) (source : String) (dropSigil : Bool) (into : String) :
    SessionM Expr := do
  let tree ← built (language.build source dropSigil)
  store into tree
  return tree

def load (tree : Expr) (into : String) : SessionM Expr := do
  store into tree
  return tree

def join (key left right into : String) : SessionM Expr := do
  let left ← fetch left
  let right ← fetch right
  load (.op key left right) into

/-- Puts the subtree that a path leads to into a slot, if there is one. -/
def extract (slot : String) (path : List Expr.Side) (into : String) : SessionM (Option Expr) := do
  let tree ← fetch slot
  match tree.at? path with
  | some subtree => some <$> load subtree into
  | none => return none

/-- Empties a slot, and tells whether it held a tree. -/
def drop (slot : String) : SessionM Bool :=
  modifyGet fun session =>
    ((session.slots.lookup slot).isSome,
      { session with slots := session.slots.filter (fun entry => entry.1 != slot) })

def interpret {α : Type} (slot : String) (meaning : Expr → EvalM α) :
    SessionM (Interpretation α) := do
  let tree ← fetch slot
  logged (meaning tree).interpretation

def equal (left right : String) : SessionM Bool := do
  let left ← fetch left
  let right ← fetch right
  return left = right

/-- Builds a tree's input form again, and tells whether the tree came back. -/
def reparse (slot : String) (language : Language) (dropSigil : Bool) : SessionM (Expr × Bool) := do
  let tree ← fetch slot
  let again ← built (language.build tree.infixText dropSigil)
  return (again, again = tree)

/-- The record of a tree, and whether the tree is read back from it. -/
def persist (slot : String) : SessionM (Datum × Bool) := do
  let tree ← fetch slot
  return (tree.toDatum, Expr.ofDatum? tree.toDatum = some tree)

/-- Sets the verbosity of the log and gives it back. -/
def setVerbosity (verbosity : Int) : SessionM Int :=
  modifyGet fun session =>
    let session := { session with log := { session.log with verbosity } }
    (session.log.verbosity, session)

def setColored (colored : Bool) : SessionM Unit :=
  modify fun session => { session with log := { session.log with colored } }

/-- The text of the log, and the session with a log that has no lines. -/
def takeLog (session : Session) : String × Session :=
  (session.log.text, { session with log := session.log.cleared })

end Session

end Formula
