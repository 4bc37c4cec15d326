import Formula.Datum
import Formula.Expr.Basic

/-!
# Trees as records

A tree is kept as nested records: the kind's name under `kind`, the key under `key`, and the operands of
an operator under `left` and `right`. Reading a record back looks at these fields only, so their order
and any others do not matter.
-/

namespace Formula.Expr

def toDatum : Expr → Datum
  | .op key left right =>
    .record [("kind", .string Kind.op.name), ("key", .string key),
      ("left", left.toDatum), ("right", right.toDatum)]
  | .var key => .record [("kind", .string Kind.var.name), ("key", .string key)]
  | .int key => .record [("kind", .string Kind.int.name), ("key", .string key)]

def recordKind? (datum : Datum) : Option Kind :=
  (datum.field? "kind").bind Datum.string? |>.bind Kind.ofName?

def recordKey? (datum : Datum) : Option String :=
  (datum.field? "key").bind Datum.string?

/-- The tree that a record describes. -/
def ofDatum? (datum : Datum) : Option Expr := do
  let kind ← recordKind? datum
  let key ← recordKey? datum
  match kind with
  | .op =>
    match _ : datum.field? "left", _ : datum.field? "right" with
    | some left, some right =>
      let left ← ofDatum? left
      let right ← ofDatum? right
      return .op key left right
    | _, _ => none
  | .var => return .var key
  | .int => return .int key
termination_by sizeOf datum
decreasing_by all_goals exact Datum.sizeOf_lt_of_field? ‹_›

end Formula.Expr
