/-!
# Truth

What a boolean formula evaluates to. A falsity carries a reason, whose type is the caller's.
-/

namespace Formula

inductive Truth (ρ : Type) where
  | holds
  | fails (reason : ρ)
  deriving DecidableEq, Repr

namespace Truth

variable {ρ : Type}

def isTrue : Truth ρ → Bool
  | .holds => true
  | .fails _ => false

def isFalse (truth : Truth ρ) : Bool := !truth.isTrue

def reason? : Truth ρ → Option ρ
  | .holds => none
  | .fails reason => some reason

end Truth

end Formula
