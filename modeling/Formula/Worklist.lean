/-!
# Worklists

A walk over a tree keeps what is still to do on a list. The walk ends because the weight of the list
goes down with every step.
-/

namespace Formula.Worklist

variable {α : Type}

def weight (item : α → Nat) : List α → Nat
  | [] => 0
  | first :: rest => item first + weight item rest

@[simp] theorem weight_nil (item : α → Nat) : weight item [] = 0 := rfl

@[simp] theorem weight_cons (item : α → Nat) (first : α) (rest : List α) :
    weight item (first :: rest) = item first + weight item rest := rfl

@[simp] theorem weight_append (item : α → Nat) (first second : List α) :
    weight item (first ++ second) = weight item first + weight item second := by
  induction first with
  | nil => simp
  | cons head rest ih => simp [ih, Nat.add_assoc]

end Formula.Worklist
