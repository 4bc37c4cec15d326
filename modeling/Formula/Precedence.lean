import Formula.Token

/-!
# Precedence tables

An operator's only property for the parser is how strongly it binds. A table maps operator texts to
precedences; higher binds tighter, and all operators are binary, infix and left associative. A table
holds each operator once, so two tables are the same when each holds every entry of the other.
-/

namespace Formula

structure PrecedenceTable where
  entries : List (String × UInt16) := []
  nodup : (entries.map Prod.fst).Nodup := by simp

namespace PrecedenceTable

instance : EmptyCollection PrecedenceTable := ⟨{}⟩

instance : Inhabited PrecedenceTable := ⟨∅⟩

/-- Gives an operator a precedence in place of any it had. -/
def insert (table : PrecedenceTable) (operator : String) (precedence : UInt16) : PrecedenceTable where
  entries := (operator, precedence) :: table.entries.filter (fun entry => entry.1 != operator)
  nodup := by
    rw [List.map_cons, List.nodup_cons]
    refine ⟨by simp, ?_⟩
    exact table.nodup.sublist (List.filter_sublist.map Prod.fst)

/-- The entries inserted in order, so that the last one of an operator counts. -/
def ofList (entries : List (String × UInt16)) : PrecedenceTable :=
  entries.foldl (fun table entry => table.insert entry.1 entry.2) ∅

def get? (table : PrecedenceTable) (operator : String) : Option UInt16 :=
  table.entries.lookup operator

@[simp] theorem get?_empty (operator : String) : (∅ : PrecedenceTable).get? operator = none := rfl

theorem lookup_filter_ne (entries : List (String × UInt16)) {operator other : String}
    (different : (operator == other) = false) :
    (entries.filter (fun entry => entry.1 != other)).lookup operator = entries.lookup operator := by
  induction entries with
  | nil => rfl
  | cons entry rest ih =>
    obtain ⟨key, precedence⟩ := entry
    by_cases same : key = other
    · subst same
      simp [ih, List.lookup_cons, different]
    · simp [same, ih, List.lookup_cons]

/-- The last insertion of an operator counts. -/
theorem get?_insert (table : PrecedenceTable) (operator other : String) (precedence : UInt16) :
    (table.insert other precedence).get? operator =
      if operator = other then some precedence else table.get? operator := by
  split
  · subst operator
    simp [get?, insert]
  · rename_i different
    have different : (operator == other) = false := beq_eq_false_iff_ne.mpr different
    simp [get?, insert, List.lookup_cons, different, lookup_filter_ne]

def contains (table : PrecedenceTable) (operator : String) : Bool :=
  (table.get? operator).isSome

theorem mem_of_contains {table : PrecedenceTable} {operator : String}
    (listed : table.contains operator = true) : operator ∈ table.entries.map Prod.fst := by
  unfold contains get? at listed
  obtain ⟨entry, member, same⟩ := List.lookup_isSome_iff.mp listed
  rw [eq_of_beq same]
  exact List.mem_map_of_mem member

def size (table : PrecedenceTable) : Nat := table.entries.length

def isEmpty (table : PrecedenceTable) : Bool := table.entries.isEmpty

/-- The precedence of a token. Only operators have one. -/
def lookUp (table : PrecedenceTable) (token : Token) : Option UInt16 :=
  match token.kind with
  | .op => table.get? token.text
  | _ => none

theorem lookUp_eq_some_iff {table : PrecedenceTable} {token : Token} {precedence : UInt16} :
    table.lookUp token = some precedence ↔ token.kind = .op ∧ table.get? token.text = some precedence := by
  unfold lookUp
  cases token.kind <;> simp

def isSubset (first second : PrecedenceTable) : Bool :=
  first.entries.all (fun entry => second.get? entry.1 == some entry.2)

instance : BEq PrecedenceTable := ⟨fun first second => first.isSubset second && second.isSubset first⟩

/-- Sums bind at 20 and products at 40. -/
def arithmetic : PrecedenceTable :=
  ofList [("+", 20), ("-", 20), ("*", 40), ("/", 40), ("%", 40)]

/-- A disjunction binds at 20 and a conjunction at 40. -/
def logical : PrecedenceTable :=
  ofList [("||", 20), ("&&", 40)]

end PrecedenceTable

end Formula
