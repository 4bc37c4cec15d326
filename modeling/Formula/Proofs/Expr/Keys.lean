import Formula.Expr.Measure

/-!
# The keys of a tree

`keys` lists the keys of one kind of node as they stand in a tree from left to right. The leaves that a walk
counts are the variables and the integers (`leafCount_eq_length_keys`), and giving the variables other names
changes no other key (`keys_rename_of_ne_var`).
-/

namespace Formula.Expr

/-- The keys of the nodes of a kind, from left to right. -/
def keys (kind : Kind) : Expr → List String
  | .op key left right => keys kind left ++ ((if kind = .op then [key] else []) ++ keys kind right)
  | .var key => if kind = .var then [key] else []
  | .int key => if kind = .int then [key] else []

/-- An operator stands between the keys of its operands and is not one of their leaves. -/
theorem keys_op_of_ne_op {kind : Kind} (leaf : kind ≠ .op) (key : String) (left right : Expr) :
    (Expr.op key left right).keys kind = left.keys kind ++ right.keys kind := by
  rw [keys, if_neg leaf, List.nil_append]

theorem mem_keys_op (key : String) (left right : Expr) : key ∈ (Expr.op key left right).keys .op :=
  List.mem_append_right _ (List.mem_append_left _ (List.mem_singleton_self key))

theorem keys_left_subset (key : String) (left right : Expr) (kind : Kind) :
    left.keys kind ⊆ (Expr.op key left right).keys kind :=
  List.subset_append_left _ _

theorem keys_right_subset (key : String) (left right : Expr) (kind : Kind) :
    right.keys kind ⊆ (Expr.op key left right).keys kind :=
  fun _ member => List.mem_append_right _ (List.mem_append_right _ member)

theorem keys_of_leaf? {kind : Kind} {key : String} {tree : Expr} (same : leaf? kind key = some tree)
    (other : Kind) : tree.keys other = if kind = other then [key] else [] := by
  cases kind with
  | op => cases same
  | var =>
    cases same
    cases other <;> rfl
  | int =>
    cases same
    cases other <;> rfl

/-! ### Counting leaves -/

theorem countLeaves_eq (trees : List Expr) (count : Nat) :
    countLeaves trees count =
      count + Worklist.weight (fun e => (e.keys .var).length + (e.keys .int).length) trees := by
  fun_induction countLeaves trees count with
  | case1 count => rfl
  | case2 key left right rest count ih =>
    rw [ih]
    simp only [Worklist.weight_cons, keys_op_of_ne_op, ne_eq, reduceCtorEq, not_false_eq_true,
      List.length_append]
    omega
  | case3 leaf rest count notOp ih =>
    rw [ih, Worklist.weight_cons]
    cases leaf with
    | op key left right => exact (notOp key left right rfl).elim
    | var key =>
      simp only [keys, if_true, reduceCtorEq, if_false, List.length_cons, List.length_nil]
      omega
    | int key =>
      simp only [keys, if_true, reduceCtorEq, if_false, List.length_cons, List.length_nil]
      omega

theorem leafCount_eq_length_keys (e : Expr) :
    e.leafCount = (e.keys .var).length + (e.keys .int).length := by
  rw [leafCount, countLeaves_eq]
  simp

/-! ### Other names -/

/-- The tree with other names for its variables. -/
def rename (f : String → String) : Expr → Expr
  | .op key left right => .op key (rename f left) (rename f right)
  | .var key => .var (f key)
  | .int key => .int key

theorem keys_rename_of_ne_var {kind : Kind} (other : kind ≠ .var) (f : String → String) (e : Expr) :
    (e.rename f).keys kind = e.keys kind := by
  induction e with
  | op key left right ihLeft ihRight => rw [rename, keys, keys, ihLeft, ihRight]
  | var key => rw [rename, keys, keys, if_neg other, if_neg other]
  | int key => rfl

end Formula.Expr
