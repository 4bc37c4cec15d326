import Mathlib.Algebra.Group.Nat.Defs
import Formula.Proofs.Expr.Keys

/-!
# Leaves and levels

The two walks over a worklist count what recursion on the tree counts: `leafCount` its leaves
(`leafCount_eq_leaves`) and `depth` its levels (`depth_eq_height`). The leaves are one more than the operators,
at least as many as the levels, and at most doubled by each level (`leafCount_and_depth_by_operands`).
-/

namespace Formula.Expr

/-! ### Leaves -/

/-- The number of leaves, operand by operand. -/
def leaves : Expr → Nat
  | .op _ left right => left.leaves + right.leaves
  | .var _ => 1
  | .int _ => 1

theorem leaves_eq_length_keys (e : Expr) : e.leaves = (e.keys .var).length + (e.keys .int).length := by
  induction e with
  | op key left right ihLeft ihRight =>
    rw [leaves, ihLeft, ihRight, keys_op_of_ne_op (by decide), keys_op_of_ne_op (by decide)]
    simp only [List.length_append]
    omega
  | var key => rfl
  | int key => rfl

theorem leafCount_eq_leaves (e : Expr) : e.leafCount = e.leaves := by
  rw [leafCount_eq_length_keys, leaves_eq_length_keys]

theorem leaves_eq_length_keys_op (e : Expr) : e.leaves = (e.keys .op).length + 1 := by
  induction e with
  | op key left right ihLeft ihRight =>
    rw [leaves, ihLeft, ihRight, keys, if_pos rfl]
    simp only [List.length_append, List.length_singleton]
    omega
  | var key => rfl
  | int key => rfl

/-! ### Levels -/

/-- The number of levels, operand by operand. -/
def height : Expr → Nat
  | .op _ left right => 1 + max left.height right.height
  | .var _ => 1
  | .int _ => 1

theorem height_of_isLeaf {e : Expr} (isLeaf : e.isLeaf = true) : e.height = 1 := by
  cases e with
  | op key left right => cases isLeaf
  | var key => rfl
  | int key => rfl

theorem one_le_height (e : Expr) : 1 ≤ e.height := by
  cases e with
  | op key left right => exact Nat.le_add_right 1 _
  | var key => exact Nat.le_refl 1
  | int key => exact Nat.le_refl 1

/-- A tree whose root is at some depth reaches down by its levels below the root. -/
theorem deepestNode_eq (trees : List (Expr × Nat)) (deepest : Nat) :
    deepestNode trees deepest =
      trees.foldl (fun deepest tree => max deepest (tree.2 + tree.1.height - 1)) deepest := by
  fun_induction deepestNode trees deepest with
  | case1 deepest => rfl
  | case2 key left right depth rest deepest ih =>
    -- Both operands are a level deeper than their operator, whose own depth therefore does not matter.
    have reach : max (max (max deepest depth) (depth + 1 + left.height - 1)) (depth + 1 + right.height - 1) =
        max deepest (depth + (Expr.op key left right).height - 1) := by
      have drop (levels : Nat) : depth + 1 + levels - 1 = depth + levels := by omega
      rw [height, ← Nat.add_assoc, drop, drop, drop]
      calc max (max (max deepest depth) (depth + left.height)) (depth + right.height)
          = max (max deepest (depth + left.height)) (depth + right.height) := by
            rw [Nat.max_assoc deepest, Nat.max_eq_right (Nat.le_add_right depth left.height)]
        _ = max deepest (depth + max left.height right.height) := by
            rw [Nat.max_assoc, Nat.add_max_add_left]
    rw [ih, List.foldl_cons, List.foldl_cons, List.foldl_cons, reach]
  | case3 leaf depth rest deepest notOp ih =>
    rw [ih, List.foldl_cons, height_of_isLeaf (isLeaf_of_ne_op notOp), Nat.add_sub_cancel]

theorem depth_eq_height (e : Expr) : e.depth = e.height := by
  rw [depth, deepestNode_eq, List.foldl_cons, List.foldl_nil, Nat.zero_max, Nat.add_sub_cancel_left]

/-! ### Bounds -/

theorem height_le_leaves (e : Expr) : e.height ≤ e.leaves := by
  induction e with
  | op key left right ihLeft ihRight =>
    have := left.leaves_eq_length_keys_op
    have := right.leaves_eq_length_keys_op
    rw [height, leaves]
    omega
  | var key => exact Nat.le_refl 1
  | int key => exact Nat.le_refl 1

/-- Each further level at most doubles the leaves. -/
theorem two_mul_leaves_le (e : Expr) : 2 * e.leaves ≤ 2 ^ e.height := by
  induction e with
  | op key left right ihLeft ihRight =>
    have wider {height : Nat} (le : height ≤ max left.height right.height) :
        2 ^ height ≤ 2 ^ max left.height right.height := Nat.pow_le_pow_right (by decide) le
    calc 2 * (left.leaves + right.leaves)
        ≤ 2 ^ left.height + 2 ^ right.height := by omega
      _ ≤ 2 ^ max left.height right.height + 2 ^ max left.height right.height :=
        Nat.add_le_add (wider (Nat.le_max_left _ _)) (wider (Nat.le_max_right _ _))
      _ = 2 ^ (1 + max left.height right.height) := by rw [Nat.pow_add, Nat.pow_one, Nat.two_mul]
  | var key => exact Nat.le_refl 2
  | int key => exact Nat.le_refl 2

theorem leaves_le_two_pow (e : Expr) : e.leaves ≤ 2 ^ (e.height - 1) := by
  refine Nat.le_of_mul_le_mul_left ?_ Nat.two_pos
  calc 2 * e.leaves
      ≤ 2 ^ e.height := two_mul_leaves_le e
    _ = 2 ^ (e.height - 1 + 1) := by rw [Nat.sub_add_cancel e.one_le_height]
    _ = 2 * 2 ^ (e.height - 1) := Nat.pow_succ'

/-- A tree has the leaves of its operands, one more than operators, and one level more than the deeper operand.
There are no more levels than leaves, and no more leaves than doubling from level to level gives. -/
theorem leafCount_and_depth_by_operands :
    (∀ e : Expr, e.leafCount = e.leaves ∧ e.leafCount = (e.keys .op).length + 1) ∧
    (∀ key, (Expr.var key).depth = 1 ∧ (Expr.int key).depth = 1) ∧
    (∀ key left right, (Expr.op key left right).depth = 1 + max left.depth right.depth) ∧
    ∀ e : Expr, e.depth ≤ e.leafCount ∧ e.leafCount ≤ 2 ^ (e.depth - 1) := by
  refine ⟨?_, ?_, ?_, ?_⟩
  · intro e
    exact ⟨leafCount_eq_leaves e, (leafCount_eq_leaves e).trans (leaves_eq_length_keys_op e)⟩
  · intro key
    exact ⟨depth_eq_height _, depth_eq_height _⟩
  · intro key left right
    rw [depth_eq_height, depth_eq_height, depth_eq_height, height]
  · intro e
    rw [depth_eq_height, leafCount_eq_leaves]
    exact ⟨height_le_leaves e, leaves_le_two_pow e⟩

end Formula.Expr
