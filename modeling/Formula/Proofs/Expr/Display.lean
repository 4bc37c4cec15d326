import Formula.Expr.Display

/-!
# The text of a tree

Whatever is still on the worklist of a writer, it writes the text of each piece in turn (`write_eq`). So a
tree is written as its operands' texts inside of its operator's (`display_eq_spell`), and the text of a subtree
is a part of the text of its tree, with the same text around it as around any other subtree in its place
(`display_compositional`).
-/

namespace Formula.Expr

/-- The text of a tree, operand by operand. -/
def spell (form : DisplayForm) : Expr → String
  | .op key left right =>
    match form with
    | .input => "(" ++ spell form left ++ " " ++ key ++ " " ++ spell form right ++ ")"
    | .full => key ++ "[" ++ spell form left ++ ", " ++ spell form right ++ "]"
  | .var key => key
  | .int key => key

theorem spell_of_isLeaf {e : Expr} (isLeaf : e.isLeaf = true) (form : DisplayForm) : e.spell form = e.key := by
  cases e with
  | op key left right => cases isLeaf
  | var key => rfl
  | int key => rfl

def Piece.spell (form : DisplayForm) : Piece → String
  | .node e => e.spell form
  | .text fragment => fragment

theorem join_operatorPieces (form : DisplayForm) (key : String) (left right : Expr) :
    String.join ((operatorPieces form key left right).map (Piece.spell form)) =
      (Expr.op key left right).spell form := by
  cases form with
  | input => simp [operatorPieces, Piece.spell, spell, String.append_assoc]
  | full => simp [operatorPieces, Piece.spell, spell, String.append_assoc]

theorem write_eq (form : DisplayForm) (pieces : List Piece) (out : String) :
    write form pieces out = out ++ String.join (pieces.map (Piece.spell form)) := by
  fun_induction write form pieces out with
  | case1 out => simp
  | case2 fragment rest out ih => rw [ih, List.map_cons, String.join_cons, Piece.spell, String.append_assoc]
  | case3 key left right rest out ih =>
    rw [ih, List.map_append, String.join_append, join_operatorPieces]
    simp [Piece.spell]
  | case4 leaf rest out notOp ih =>
    have same : leaf.spell form = leaf.key := spell_of_isLeaf (isLeaf_of_ne_op notOp) form
    rw [ih, List.map_cons, String.join_cons, Piece.spell, same, String.append_assoc]

theorem display_eq_spell (form : DisplayForm) (e : Expr) : e.display form = e.spell form := by
  rw [display, write_eq]
  simp [Piece.spell]

theorem infixText_eq_spell (e : Expr) : e.infixText = e.spell .input := display_eq_spell .input e

/-! ### A subtree inside of its tree -/

/-- Whatever has been written and is still to be written, a tree on the worklist adds its own text. -/
theorem write_node (form : DisplayForm) (e : Expr) (pending : List Piece) (out : String) :
    write form (.node e :: pending) out = write form pending (out ++ e.display form) := by
  rw [write_eq, write_eq, display_eq_spell, List.map_cons, String.join_cons, Piece.spell, String.append_assoc]

/-- The operator with another operand on one side. -/
def withOperand : Expr → Side → Expr → Expr
  | .op key _ right, .left, new => .op key new right
  | .op key left _, .right, new => .op key left new
  | leaf, _, _ => leaf

/-- The tree with another one in place of the subtree that a path leads to. -/
def replaceAt (e : Expr) (path : List Side) (new : Expr) : Expr :=
  match path with
  | [] => new
  | side :: path =>
    match e.operand? side with
    | some operand => e.withOperand side (operand.replaceAt path new)
    | none => e

variable {e sub : Expr} {path : List Side}

theorem exists_op_of_operand? {operand : Expr} {side : Side} (found : e.operand? side = some operand) :
    ∃ key left right, e = .op key left right := by
  cases e with
  | op key left right => exact ⟨key, left, right, rfl⟩
  | var key => cases side <;> cases found
  | int key => cases side <;> cases found

theorem withOperand_self {operand : Expr} {side : Side} (found : e.operand? side = some operand) :
    e.withOperand side operand = e := by
  obtain ⟨key, left, right, rfl⟩ := exists_op_of_operand? found
  cases side with
  | left =>
    cases found
    rfl
  | right =>
    cases found
    rfl

/-- What an operator writes around an operand does not depend on the operand. -/
theorem exists_spell_withOperand (form : DisplayForm) {operand : Expr} {side : Side}
    (found : e.operand? side = some operand) :
    ∃ before after, ∀ new, (e.withOperand side new).spell form = before ++ new.spell form ++ after := by
  obtain ⟨key, left, right, rfl⟩ := exists_op_of_operand? found
  cases side with
  | left =>
    cases form with
    | input =>
      refine ⟨"(", " " ++ key ++ " " ++ right.spell .input ++ ")", fun new => ?_⟩
      simp only [withOperand, spell, String.append_assoc]
    | full =>
      refine ⟨key ++ "[", ", " ++ right.spell .full ++ "]", fun new => ?_⟩
      simp only [withOperand, spell, String.append_assoc]
  | right =>
    cases form with
    | input => exact ⟨"(" ++ left.spell .input ++ " " ++ key ++ " ", ")", fun new => rfl⟩
    | full => exact ⟨key ++ "[" ++ left.spell .full ++ ", ", "]", fun new => rfl⟩

theorem exists_spell_replaceAt (form : DisplayForm) (found : e.at? path = some sub) :
    ∃ before after, ∀ new, (e.replaceAt path new).spell form = before ++ new.spell form ++ after := by
  induction path generalizing e with
  | nil =>
    refine ⟨"", "", fun new => ?_⟩
    rw [replaceAt, String.empty_append, String.append_empty]
  | cons side path ih =>
    obtain ⟨operand, operandFound, found⟩ := Option.bind_eq_some_iff.mp found
    obtain ⟨before, after, inner⟩ := ih found
    obtain ⟨first, last, outer⟩ := exists_spell_withOperand form operandFound
    refine ⟨first ++ before, after ++ last, fun new => ?_⟩
    rw [replaceAt, operandFound]
    simp only [outer, inner, String.append_assoc]

theorem replaceAt_self (found : e.at? path = some sub) : e.replaceAt path sub = e := by
  induction path generalizing e with
  | nil =>
    cases found
    rfl
  | cons side path ih =>
    obtain ⟨operand, operandFound, found⟩ := Option.bind_eq_some_iff.mp found
    rw [replaceAt, operandFound]
    dsimp only
    rw [ih found, withOperand_self operandFound]

/-- A tree is written as its operands and its operator are, the writer adds just the text of the tree that is
next on its worklist, and around a subtree it writes the same whatever the subtree is. -/
theorem display_compositional :
    (∀ (key : String) (left right : Expr), (Expr.op key left right).display .input =
      "(" ++ left.display .input ++ " " ++ key ++ " " ++ right.display .input ++ ")") ∧
    (∀ (key : String) (left right : Expr), (Expr.op key left right).display .full =
      key ++ "[" ++ left.display .full ++ ", " ++ right.display .full ++ "]") ∧
    (∀ (form : DisplayForm) (key : String), (Expr.var key).display form = key ∧ (Expr.int key).display form = key) ∧
    (∀ (form : DisplayForm) (e : Expr) (pending : List Piece) (out : String),
      write form (.node e :: pending) out = write form pending (out ++ e.display form)) ∧
    ∀ (form : DisplayForm) (e : Expr) (path : List Side) (sub : Expr), e.at? path = some sub →
      ∃ before after, e.display form = before ++ sub.display form ++ after ∧
        ∀ new, (e.replaceAt path new).display form = before ++ new.display form ++ after := by
  refine ⟨?_, ?_, ?_, write_node, ?_⟩
  · intro key left right
    simp only [display_eq_spell, spell]
  · intro key left right
    simp only [display_eq_spell, spell]
  · intro form key
    simp only [display_eq_spell, spell, and_self]
  · intro form e path sub found
    obtain ⟨before, after, around⟩ := exists_spell_replaceAt form found
    refine ⟨before, after, ?_, ?_⟩
    · rw [display_eq_spell, display_eq_spell, ← around sub, replaceAt_self found]
    · simpa only [display_eq_spell] using around

/-- The product is a part of the text of the sum. -/
theorem display_around_product :
    let product := Expr.op "*" (.int "2") (.var "")
    let sum := Expr.op "+" (.int "1") product
    sum.at? [.right] = some product ∧ ∃ before after,
      sum.display .input = before ++ product.display .input ++ after ∧
      ∀ new, (sum.replaceAt [.right] new).display .input = before ++ new.display .input ++ after :=
  ⟨rfl, display_compositional.2.2.2.2 _ _ _ _ rfl⟩

end Formula.Expr
