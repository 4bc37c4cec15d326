import Mathlib.Data.Finset.Card
import Mathlib.Data.List.Induction
import Formula.Precedence
import Formula.Proofs.Entries

/-!
# Tables by their insertions

A table gives an operator the precedence that it was last inserted with (`get?_ofList_eq_some_iff`), and holds each
inserted operator once (`operators_ofList`). What an operator is given decides whether two tables are equal
(`beq_iff_get?_eq`), so neither the order of the insertions nor what they replaced shows in a table
(`determined_by_last_insertions`).
-/

namespace Formula.PrecedenceTable

variable {table first second : PrecedenceTable} {insertions : List (String × UInt16)} {operator : String}
  {precedence : UInt16}

/-! ### Entries -/

theorem get?_eq_some_iff_mem :
    table.get? operator = some precedence ↔ (operator, precedence) ∈ table.entries :=
  lookup_eq_some_iff_mem table.nodup

theorem contains_iff_ne_none : table.contains operator = true ↔ table.get? operator ≠ none :=
  Option.isSome_iff_ne_none

theorem contains_iff_mem : table.contains operator = true ↔ operator ∈ table.entries.map Prod.fst := by
  refine ⟨mem_of_contains, fun listed => ?_⟩
  obtain ⟨⟨operator, precedence⟩, member, rfl⟩ := List.mem_map.mp listed
  exact Option.isSome_of_mem (get?_eq_some_iff_mem.mpr member)

/-- The operators that a table holds. -/
def operators (table : PrecedenceTable) : Finset String := (table.entries.map Prod.fst).toFinset

theorem mem_operators_iff_contains : operator ∈ table.operators ↔ table.contains operator = true := by
  rw [operators, List.mem_toFinset, contains_iff_mem]

theorem size_eq_card_operators (table : PrecedenceTable) : table.size = table.operators.card := by
  rw [operators, List.toFinset_card_of_nodup table.nodup, List.length_map, size]

theorem isEmpty_iff_size_eq_zero : table.isEmpty = true ↔ table.size = 0 := by
  rw [isEmpty, List.isEmpty_iff, size, List.length_eq_zero_iff]

/-! ### Equality -/

theorem isSubset_iff : first.isSubset second = true ↔
    ∀ operator precedence, first.get? operator = some precedence → second.get? operator = some precedence := by
  simp only [isSubset, List.all_eq_true, beq_iff_eq, Prod.forall, get?_eq_some_iff_mem]

theorem beq_iff_get?_eq :
    (first == second) = true ↔ ∀ operator, first.get? operator = second.get? operator := by
  have subsets : (first == second) = true ↔ first.isSubset second = true ∧ second.isSubset first = true :=
    Bool.and_eq_true_iff
  rw [subsets, isSubset_iff, isSubset_iff]
  constructor
  · rintro ⟨forward, backward⟩ operator
    exact Option.ext fun precedence => ⟨forward operator precedence, backward operator precedence⟩
  · intro same
    exact ⟨fun operator _ found => (same operator).symm.trans found,
      fun operator _ found => (same operator).trans found⟩

/-! ### Insertions -/

/-- The last of the insertions of `operator` gives it `precedence`. -/
def LastInserts (insertions : List (String × UInt16)) (operator : String) (precedence : UInt16) : Prop :=
  ∃ before after, insertions = before ++ (operator, precedence) :: after ∧ operator ∉ after.map Prod.fst

theorem ofList_append_singleton (insertions : List (String × UInt16)) (operator : String)
    (precedence : UInt16) :
    ofList (insertions ++ [(operator, precedence)]) = (ofList insertions).insert operator precedence := by
  rw [ofList, List.foldl_append]
  rfl

/-- Later insertions hide earlier ones. -/
theorem get?_ofList (insertions : List (String × UInt16)) (operator : String) :
    (ofList insertions).get? operator = insertions.reverse.lookup operator := by
  -- The entry inserted last is the last of the list, so it is the one that the induction takes off.
  induction insertions using List.reverseRecOn with
  | nil => rfl
  | append_singleton insertions entry ih =>
    obtain ⟨other, precedence⟩ := entry
    rw [ofList_append_singleton, get?_insert, List.reverse_append, List.reverse_singleton,
      List.singleton_append, List.lookup_cons, ih]
    split
    · rename_i same
      rw [beq_iff_eq.mpr same]
    · rename_i different
      rw [beq_eq_false_iff_ne.mpr different]

theorem get?_ofList_eq_some_iff :
    (ofList insertions).get? operator = some precedence ↔ LastInserts insertions operator precedence := by
  rw [get?_ofList, List.lookup_eq_some_iff]
  constructor
  · rintro ⟨after, before, reversed, unlisted⟩
    refine ⟨before.reverse, after.reverse, ?_, ?_⟩
    · rw [← List.reverse_reverse insertions, reversed]
      simp
    · rw [List.map_reverse, List.mem_reverse]
      exact forall_bne_iff_not_mem.mp unlisted
  · rintro ⟨before, after, rfl, unlisted⟩
    refine ⟨after.reverse, before.reverse, by simp, forall_bne_iff_not_mem.mpr ?_⟩
    rwa [List.map_reverse, List.mem_reverse]

theorem get?_ofList_eq_none_iff :
    (ofList insertions).get? operator = none ↔ operator ∉ insertions.map Prod.fst := by
  rw [get?_ofList, List.lookup_eq_none_iff, forall_bne_iff_not_mem, List.map_reverse, List.mem_reverse]

theorem operators_ofList (insertions : List (String × UInt16)) :
    (ofList insertions).operators = (insertions.map Prod.fst).toFinset := by
  ext operator
  rw [mem_operators_iff_contains, contains_iff_ne_none, Ne, get?_ofList_eq_none_iff, Decidable.not_not,
    List.mem_toFinset]

theorem isEmpty_ofList_iff : (ofList insertions).isEmpty = true ↔ insertions = [] := by
  rw [isEmpty_iff_size_eq_zero, size_eq_card_operators, operators_ofList, Finset.card_eq_zero,
    List.toFinset_eq_empty_iff, List.map_eq_nil_iff]

/-! ### Precedences as numbers -/

/-- How strongly something binds. What is no operator is below all operators. -/
def strength : Option UInt16 → Int
  | some precedence => precedence.toNat
  | none => -1

theorem strength_injective : Function.Injective strength := by
  intro first second same
  cases first with
  | none =>
    cases second with
    | none => rfl
    | some precedence =>
      simp only [strength] at same
      omega
  | some precedence =>
    cases second with
    | none =>
      simp only [strength] at same
      omega
    | some other => exact congrArg some (UInt16.toNat_inj.mp (Int.ofNat_inj.mp same))

theorem strength_nonneg_iff {precedence? : Option UInt16} :
    0 ≤ strength precedence? ↔ precedence?.isSome = true := by
  cases precedence? with
  | none => decide
  | some precedence => exact iff_of_true (Int.natCast_nonneg _) rfl

theorem strength_lookUp (table : PrecedenceTable) (token : Token) :
    strength (table.lookUp token) = if token.kind = .op then strength (table.get? token.text) else -1 := by
  unfold lookUp
  cases token.kind <;> rfl

/-- What a table made by insertions answers is decided by the last insertion of each operator. Two such tables are
equal just when they answer alike, however they were made. -/
theorem determined_by_last_insertions (insertions : List (String × UInt16)) :
    (∀ operator precedence, strength ((ofList insertions).get? operator) = precedence.toNat ↔
      LastInserts insertions operator precedence) ∧
    (∀ operator, strength ((ofList insertions).get? operator) = -1 ↔ operator ∉ insertions.map Prod.fst) ∧
    (∀ operator, (ofList insertions).contains operator = true ↔
      0 ≤ strength ((ofList insertions).get? operator)) ∧
    (∀ token, strength ((ofList insertions).lookUp token) =
      if token.kind = .op then strength ((ofList insertions).get? token.text) else -1) ∧
    (ofList insertions).size = (insertions.map Prod.fst).toFinset.card ∧
    ((ofList insertions).isEmpty = true ↔ insertions = []) ∧
    ∀ others, (ofList insertions == ofList others) = true ↔
      ∀ operator, strength ((ofList insertions).get? operator) = strength ((ofList others).get? operator) := by
  refine ⟨?_, ?_, ?_, strength_lookUp _, ?_, isEmpty_ofList_iff, ?_⟩
  · intro operator precedence
    exact strength_injective.eq_iff.trans get?_ofList_eq_some_iff
  · intro operator
    exact strength_injective.eq_iff.trans get?_ofList_eq_none_iff
  · intro operator
    exact strength_nonneg_iff.symm
  · rw [size_eq_card_operators, operators_ofList]
  · intro others
    simp only [beq_iff_get?_eq, strength_injective.eq_iff]

end Formula.PrecedenceTable
