import Formula.Proofs.Evaluation.Boolean

/-!
# Runs of one operator

A run of conjunctions or of disjunctions comes to the same however it is grouped. An operand that decides one
operator of a run decides all that are still to come, so the operands behind it are passed over at once or one
by one. Neither the outcome nor the lookups tell the groupings apart (`shortCircuit_eq_of_regroups`). Only a log
does, on which every operator that is passed over leaves a line of its own.
-/

namespace Formula

theorem Ending.andThen_assoc {α β γ : Type} (ending : Ending α) (next : α → List String → Ending β)
    (last : β → List String → Ending γ) :
    (ending.andThen next).andThen last = ending.andThen fun value asked => (next value asked).andThen last := by
  obtain ⟨outcome, asked⟩ := ending
  cases outcome with
  | error e => rfl
  | ok value => rfl

namespace Boolean

variable {ρ : Type} (resolver? : Option (Resolver (Truth ρ)))

/-- The same formula with some runs of one operator grouped in other ways, anywhere in it. -/
inductive Regroups : Expr → Expr → Prop where
  | rotate {key : String} (known : key = "&&" ∨ key = "||") (a b c : Expr) :
      Regroups (.op key (.op key a b) c) (.op key a (.op key b c))
  | op (key : String) {left left' right right' : Expr} (inLeft : Regroups left left')
      (inRight : Regroups right right') : Regroups (.op key left right) (.op key left' right')
  | refl (e : Expr) : Regroups e e
  | symm {e e' : Expr} (regroups : Regroups e e') : Regroups e' e
  | trans {e e' e'' : Expr} (first : Regroups e e') (second : Regroups e' e'') : Regroups e e''

theorem shortCircuit_rotate {key : String} {connective : Connective}
    (found : Connective.ofKey? key = some connective) (a b c : Expr) (asked : List String) :
    shortCircuit resolver? (.op key (.op key a b) c) asked =
      shortCircuit resolver? (.op key a (.op key b c)) asked := by
  simp only [shortCircuit_of_ofKey? resolver? found, Ending.andThen_assoc]
  congr 1
  funext truth later
  by_cases decides : connective.isDecidedBy truth = true
  · -- The first operand decides the inner operator on the left, and then the outer one.
    rw [if_pos decides, if_pos decides, Ending.andThen, if_pos decides]
  · rw [if_neg decides, if_neg decides]

theorem shortCircuit_op_congr (key : String) {left left' right right' : Expr}
    (sameLeft : ∀ asked, shortCircuit resolver? left asked = shortCircuit resolver? left' asked)
    (sameRight : ∀ asked, shortCircuit resolver? right asked = shortCircuit resolver? right' asked)
    (asked : List String) :
    shortCircuit resolver? (.op key left right) asked = shortCircuit resolver? (.op key left' right') asked := by
  rw [shortCircuit, shortCircuit, sameLeft]
  simp only [sameRight]

theorem shortCircuit_eq_of_regroups {e e' : Expr} (regroups : Regroups e e') (asked : List String) :
    shortCircuit resolver? e asked = shortCircuit resolver? e' asked := by
  induction regroups generalizing asked with
  | rotate known a b c =>
    obtain ⟨_, found⟩ := exists_connective known
    exact shortCircuit_rotate resolver? found a b c asked
  | op key _ _ ihLeft ihRight => exact shortCircuit_op_congr resolver? key ihLeft ihRight asked
  | refl e => rfl
  | symm _ ih => exact (ih asked).symm
  | trans _ _ ihFirst ihSecond => exact (ihFirst asked).trans (ihSecond asked)

theorem interpretation_eq_of_regroups {e e' : Expr} (regroups : Regroups e e') (log log' : Log) :
    ((interpret resolver? e).interpretation.run log).1 = ((interpret resolver? e').interpretation.run log').1 := by
  obtain ⟨_, evaluates⟩ := exists_evaluates_interpret resolver? e []
  obtain ⟨_, evaluates'⟩ := exists_evaluates_interpret resolver? e' []
  rw [interpretation_of_evaluates evaluates, interpretation_of_evaluates evaluates',
    shortCircuit_eq_of_regroups resolver? regroups]

/-- Three operands under one operator come to the same outcome, reason and error included, behind the same lookups
in the same order, whichever two of them are grouped. -/
theorem interpretation_regrouped {key : String} (known : key = "&&" ∨ key = "||") (a b c : Expr) (log log' : Log) :
    ((interpret resolver? (.op key (.op key a b) c)).interpretation.run log).1 =
      ((interpret resolver? (.op key a (.op key b c))).interpretation.run log').1 :=
  interpretation_eq_of_regroups resolver? (.rotate known a b c) log log'

/-- A variable whose second answer decides. The literal behind it, which has no truth, is passed over. -/
theorem interpretation_of_regrouped_conjunction :
    ("&&" = "&&" ∨ "&&" = "||") ∧
    ((interpret (some (.scripted [("$a", [.ok .holds, .ok (.fails 2)])]))
      (.op "&&" (.op "&&" (.var "$a") (.var "$a")) (.int "3"))).interpretation.run {}).1 =
        (⟨.ok (.fails 2), ["$a", "$a"]⟩ : Interpretation (Truth Nat)) ∧
    ((interpret (some (.scripted [("$a", [.ok .holds, .ok (.fails 2)])]))
      (.op "&&" (.var "$a") (.op "&&" (.var "$a") (.int "3")))).interpretation.run {}).1 =
        (⟨.ok (.fails 2), ["$a", "$a"]⟩ : Interpretation (Truth Nat)) := by
  have grouped : ((interpret (some (.scripted [("$a", [.ok .holds, .ok (.fails 2)])]))
      (.op "&&" (.op "&&" (.var "$a") (.var "$a")) (.int "3"))).interpretation.run {}).1 =
        (⟨.ok (.fails 2), ["$a", "$a"]⟩ : Interpretation (Truth Nat)) := by
    obtain ⟨_, evaluates⟩ := exists_evaluates_interpret
      (some (.scripted [("$a", [.ok .holds, .ok (.fails (2 : Nat))])]))
      (.op "&&" (.op "&&" (.var "$a") (.var "$a")) (.int "3")) []
    rw [interpretation_of_evaluates evaluates]
    rfl
  exact ⟨.inl rfl, grouped, (interpretation_regrouped _ (.inl rfl) _ _ _ {} {}).symm.trans grouped⟩

end Boolean

end Formula
