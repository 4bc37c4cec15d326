import Formula.Expr.Basic

/-!
# Measures of a tree

How many leaves a tree has and how deep it is, each by a walk over a worklist of the subtrees still to
be counted.
-/

namespace Formula.Expr

/-- Counts the leaves of every tree on the worklist on top of `count`. -/
def countLeaves : List Expr → Nat → Nat
  | [], count => count
  | .op _ left right :: rest, count => countLeaves (left :: right :: rest) count
  | _ :: rest, count => countLeaves rest (count + 1)
termination_by trees => Worklist.weight size trees
decreasing_by
  · simp [size]; omega
  · simp [size_pos]

def leafCount (e : Expr) : Nat := countLeaves [e] 0

/-- The greatest depth on a worklist that pairs each tree with the depth of its root, if it exceeds
`deepest`. -/
def deepestNode : List (Expr × Nat) → Nat → Nat
  | [], deepest => deepest
  | (.op _ left right, depth) :: rest, deepest =>
    deepestNode ((left, depth + 1) :: (right, depth + 1) :: rest) (max deepest depth)
  | (_, depth) :: rest, deepest => deepestNode rest (max deepest depth)
termination_by trees => Worklist.weight (fun tree => tree.1.size) trees
decreasing_by
  · simp [size]; omega
  · simp [size_pos]

/-- The number of nodes on the longest path from the root. A leaf has depth 1. -/
def depth (e : Expr) : Nat := deepestNode [(e, 1)] 0

end Formula.Expr
