import Formula.Worklist

/-!
# Expressions

The binary trees that formulas are read into. An operator has exactly two operands; variables and
integers are leaves. An integer keeps its text, which becomes a number only when it is evaluated.

A tree is as deep as its longest run of operators, so whatever visits a whole tree keeps a worklist
instead of recursing. `Expr.same` is the first such walk, and it decides equality
(`Expr.same_eq_true_iff`).
-/

namespace Formula

/-- What a token or a node of a tree is. -/
inductive Kind where
  | op | var | int
  deriving DecidableEq, Repr

namespace Kind

def name : Kind → String
  | .op => "Operator"
  | .var => "Variable"
  | .int => "Integer"

/-- The kind with exactly this name. -/
def ofName? : String → Option Kind
  | "Operator" => some .op
  | "Variable" => some .var
  | "Integer" => some .int
  | _ => none

@[simp] theorem ofName?_name (kind : Kind) : ofName? kind.name = some kind := by
  cases kind <;> rfl

theorem name_of_ofName? {text : String} {kind : Kind} (h : ofName? text = some kind) :
    kind.name = text := by
  unfold ofName? at h
  split at h <;> simp_all [name] <;> subst h <;> rfl

end Kind

/-- A formula as a tree. The key is the operator, the variable's name or the literal, as written. -/
inductive Expr where
  | op (key : String) (left right : Expr)
  | var (key : String)
  | int (key : String)
  deriving Repr, Inhabited

namespace Expr

/-- The leaf of a kind. There is no operator without operands. -/
def leaf? (kind : Kind) (key : String) : Option Expr :=
  match kind with
  | .op => none
  | .var => some (.var key)
  | .int => some (.int key)

def kind : Expr → Kind
  | .op .. => .op
  | .var _ => .var
  | .int _ => .int

def key : Expr → String
  | .op key _ _ => key
  | .var key => key
  | .int key => key

def left? : Expr → Option Expr
  | .op _ left _ => some left
  | _ => none

def right? : Expr → Option Expr
  | .op _ _ right => some right
  | _ => none

def isLeaf : Expr → Bool
  | .op .. => false
  | _ => true

theorem isLeaf_of_ne_op {e : Expr} (notOp : ∀ key left right, e = .op key left right → False) :
    e.isLeaf = true := by
  cases e with
  | op key left right => exact (notOp key left right rfl).elim
  | var key => rfl
  | int key => rfl

/-- Which operand a step goes to. -/
inductive Side where
  | left | right
  deriving DecidableEq, Repr

def operand? (e : Expr) : Side → Option Expr
  | .left => e.left?
  | .right => e.right?

def at? (e : Expr) : List Side → Option Expr
  | [] => some e
  | side :: path => (e.operand? side).bind (at? · path)

def size : Expr → Nat
  | .op _ left right => left.size + right.size + 1
  | _ => 1

theorem size_pos (e : Expr) : 0 < e.size := by
  cases e <;> simp [size]

/-- Each pair on the worklist holds the same tree twice. -/
def same : List (Expr × Expr) → Bool
  | [] => true
  | (.op k l r, .op k' l' r') :: rest => k == k' && same ((l, l') :: (r, r') :: rest)
  | (.var k, .var k') :: rest => k == k' && same rest
  | (.int k, .int k') :: rest => k == k' && same rest
  | _ :: _ => false
termination_by pairs => Worklist.weight (fun pair => pair.1.size) pairs
decreasing_by all_goals (simp [size] <;> omega)

theorem same_eq_true_iff (pairs : List (Expr × Expr)) :
    same pairs = true ↔ ∀ pair ∈ pairs, pair.1 = pair.2 := by
  fun_induction same pairs with
  | case1 => simp
  | case2 k l r k' l' r' rest ih => simp [ih, and_assoc]
  | case3 k k' rest ih => simp [ih]
  | case4 k k' rest ih => simp [ih]
  | case5 pair rest op var int =>
    obtain ⟨first, second⟩ := pair
    simp only [Bool.false_eq_true, List.mem_cons, forall_eq_or_imp, false_iff, not_and]
    rintro rfl
    cases first with
    | op k l r => exact (op k l r k l r rfl).elim
    | var k => exact (var k k rfl).elim
    | int k => exact (int k k rfl).elim

instance : DecidableEq Expr := fun first second =>
  decidable_of_iff (same [(first, second)] = true) (by simp [same_eq_true_iff])

end Expr

end Formula
