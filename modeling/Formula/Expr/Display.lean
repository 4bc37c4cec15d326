import Formula.Expr.Basic

/-!
# Writing trees

A tree is written in one of two forms. The input form is infix with every operator in parentheses, and
reads back to the same tree; the full form puts the operator before its operands. `write` emits pieces
from a worklist, where an operator's pieces take its place.
-/

namespace Formula

inductive DisplayForm where
  | input | full
  deriving DecidableEq, Repr

namespace DisplayForm

instance : Inhabited DisplayForm := ⟨.input⟩

def name : DisplayForm → String
  | .input => "InputForm"
  | .full => "FullForm"

/-- The form with exactly this name. -/
def ofName? : String → Option DisplayForm
  | "InputForm" => some .input
  | "FullForm" => some .full
  | _ => none

@[simp] theorem ofName?_name (form : DisplayForm) : ofName? form.name = some form := by
  cases form <;> rfl

end DisplayForm

namespace Expr

/-- A unit of output: a subtree still to be written, or text. -/
inductive Piece where
  | node (e : Expr)
  | text (fragment : String)

/-- How much writing a piece takes: each operator is replaced by at most seven pieces. -/
def Piece.weight : Piece → Nat
  | .node e => 6 * e.size
  | .text _ => 1

def operatorPieces (form : DisplayForm) (key : String) (left right : Expr) : List Piece :=
  match form with
  | .input =>
    [.text "(", .node left, .text " ", .text key, .text " ", .node right, .text ")"]
  | .full => [.text key, .text "[", .node left, .text ", ", .node right, .text "]"]

theorem weight_operatorPieces (form : DisplayForm) (key : String) (left right : Expr) :
    Worklist.weight Piece.weight (operatorPieces form key left right)
      < (Piece.node (.op key left right)).weight := by
  cases form <;> simp [operatorPieces, Piece.weight, size] <;> omega

/-- Writes the pieces one after another behind `out`. -/
def write (form : DisplayForm) : List Piece → String → String
  | [], out => out
  | .text fragment :: rest, out => write form rest (out ++ fragment)
  | .node (.op key left right) :: rest, out =>
    write form (operatorPieces form key left right ++ rest) out
  | .node leaf :: rest, out => write form rest (out ++ leaf.key)
termination_by pieces => Worklist.weight Piece.weight pieces
decreasing_by
  · simp [Piece.weight]
  · have := weight_operatorPieces form key left right
    simp only [Worklist.weight_append, Worklist.weight_cons]
    omega
  · simp [Piece.weight, size_pos]

/-- The text of a tree in a form. -/
def display (form : DisplayForm) (e : Expr) : String := write form [.node e] ""

def infixText (e : Expr) : String := e.display .input

instance : ToString Expr := ⟨infixText⟩

end Expr

end Formula
