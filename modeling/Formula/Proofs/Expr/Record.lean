import Formula.Expr.Record
import Formula.Proofs.Entries

/-!
# Records of trees

A tree comes back from its record (`ofDatum?_toDatum`). The other way round, a value is read when it is the record
of a node all the way down, and then the tree's own record is that value without the fields that no node of its
kind has (`ofDatum?_reads`). So nothing of a tree is lost, and nothing but a tree is taken from a value.
-/

namespace Formula

/-- The fields of a node. -/
def Kind.fields : Kind → List String
  | .op => ["kind", "key", "left", "right"]
  | .var | .int => ["kind", "key"]

theorem Kind.nodup_fields (kind : Kind) : kind.fields.Nodup := by
  cases kind <;> decide

namespace Datum

open Formula.Expr (recordKind? recordKey? ofDatum?)

/-- No record in the value has two fields of one name. -/
inductive NamesOnce : Datum → Prop where
  | null : NamesOnce .null
  | bool (value : Bool) : NamesOnce (.bool value)
  | number (mantissa : Int) (places : Nat) : NamesOnce (.number mantissa places)
  | string (text : String) : NamesOnce (.string text)
  | list {items : List Datum} (each : ∀ item ∈ items, NamesOnce item) : NamesOnce (.list items)
  | record {fields : List (String × Datum)} (distinct : (fields.map Prod.fst).Nodup)
      (each : ∀ name value, (name, value) ∈ fields → NamesOnce value) : NamesOnce (.record fields)

/-- The values are the same up to the order of fields. -/
inductive Alike : Datum → Datum → Prop where
  | refl (value : Datum) : Alike value value
  | list {items others : List Datum} (length_eq : items.length = others.length)
      (each : ∀ i (inside : i < items.length) (insideToo : i < others.length), Alike items[i] others[i]) :
      Alike (.list items) (.list others)
  | record {fields others : List (String × Datum)} (names : (fields.map Prod.fst).Perm (others.map Prod.fst))
      (each : ∀ name value other, (name, value) ∈ fields → (name, other) ∈ others → Alike value other) :
      Alike (.record fields) (.record others)

/-- A node of a tree, whatever other fields it has. What is under the `left` and the `right` of a leaf is of no
account. -/
inductive IsNode : Datum → Prop where
  | leaf {fields : List (String × Datum)} {kind : Kind} {key : String} (bare : kind ≠ .op)
      (kinded : ("kind", .string kind.name) ∈ fields) (keyed : ("key", .string key) ∈ fields) :
      IsNode (.record fields)
  | op {fields : List (String × Datum)} {key : String} {left right : Datum}
      (kinded : ("kind", .string Kind.op.name) ∈ fields) (keyed : ("key", .string key) ∈ fields)
      (first : ("left", left) ∈ fields) (second : ("right", right) ∈ fields)
      (leftNode : IsNode left) (rightNode : IsNode right) : IsNode (.record fields)

mutual

/-- Drops every field that does not belong to the kind of its record. -/
def prune : Datum → Datum
  | .record fields =>
    match recordKind? (.record fields) with
    | some kind => .record (pruneFields kind fields)
    | none => .record fields
  | value => value

def pruneFields (kind : Kind) : List (String × Datum) → List (String × Datum)
  | [] => []
  | (name, value) :: rest =>
    if name ∈ kind.fields then (name, prune value) :: pruneFields kind rest else pruneFields kind rest

end

/-! ### Fields -/

section Fields

variable {fields : List (String × Datum)} {name : String} {value : Datum} {kind : Kind}

theorem lookup_pruneFields (own : name ∈ kind.fields) :
    (pruneFields kind fields).lookup name = (fields.lookup name).map prune := by
  induction fields with
  | nil => rfl
  | cons field rest ih =>
    obtain ⟨other, held⟩ := field
    by_cases same : name = other
    · subst same
      simp [pruneFields, own]
    · have different : (name == other) = false := by simpa using same
      unfold pruneFields
      split
      · simp [List.lookup_cons, different, ih]
      · simp [List.lookup_cons, different, ih]

theorem pruneFields_eq_map_filter : pruneFields kind fields =
    (fields.filter fun field => field.1 ∈ kind.fields).map fun field => (field.1, field.2.prune) := by
  induction fields with
  | nil => rfl
  | cons field rest ih =>
    unfold pruneFields
    split
    · rename_i own
      rw [List.filter_cons_of_pos (by simpa using own), List.map_cons, ih]
    · rename_i foreign
      rw [List.filter_cons_of_neg (by simpa using foreign), ih]

theorem mem_pruneFields_iff : (name, value) ∈ pruneFields kind fields ↔
    name ∈ kind.fields ∧ ∃ held, (name, held) ∈ fields ∧ held.prune = value := by
  rw [pruneFields_eq_map_filter, List.mem_map]
  constructor
  · rintro ⟨⟨_, held⟩, kept, ⟨⟩⟩
    obtain ⟨member, own⟩ := List.mem_filter.mp kept
    exact ⟨by simpa using own, held, member, rfl⟩
  · rintro ⟨own, held, member, rfl⟩
    exact ⟨(name, held), List.mem_filter.mpr ⟨member, by simpa using own⟩, rfl⟩

theorem distinct_pruneFields (distinct : (fields.map Prod.fst).Nodup) :
    ((pruneFields kind fields).map Prod.fst).Nodup := by
  have names : (pruneFields kind fields).map Prod.fst =
      (fields.filter fun field => field.1 ∈ kind.fields).map Prod.fst := by
    rw [pruneFields_eq_map_filter, List.map_map]
    rfl
  rw [names]
  exact distinct.sublist (List.filter_sublist.map Prod.fst)

end Fields

@[simp] theorem string?_prune (datum : Datum) : datum.prune.string? = datum.string? := by
  cases datum with
  | record fields =>
    unfold prune
    split
    · rfl
    · rfl
  | _ => rfl

theorem prune_of_recordKind?_eq_none {datum : Datum} (unknown : recordKind? datum = none) :
    datum.prune = datum := by
  cases datum with
  | record fields => rw [prune, unknown]
  | _ => rfl

theorem exists_fields_of_recordKind? {datum : Datum} {kind : Kind} (known : recordKind? datum = some kind) :
    ∃ fields, datum = .record fields ∧ datum.prune = .record (pruneFields kind fields) := by
  cases datum with
  | record fields => exact ⟨fields, rfl, by rw [prune, known]⟩
  | _ => cases known

theorem field?_prune {datum : Datum} {kind : Kind} (known : recordKind? datum = some kind) {name : String}
    (own : name ∈ kind.fields) : datum.prune.field? name = (datum.field? name).map prune := by
  obtain ⟨fields, rfl, pruned⟩ := exists_fields_of_recordKind? known
  rw [pruned]
  exact lookup_pruneFields own

theorem string?_field?_prune {datum : Datum} {kind : Kind} (known : recordKind? datum = some kind) {name : String}
    (own : name ∈ kind.fields) : (datum.prune.field? name).bind string? = (datum.field? name).bind string? := by
  have same : string? ∘ prune = string? := funext string?_prune
  rw [field?_prune known own, Option.bind_map, same]

theorem NamesOnce.prune {datum : Datum} (once : datum.NamesOnce) : datum.prune.NamesOnce := by
  induction once with
  | @record fields distinct each ih =>
    unfold Datum.prune
    split
    · rename_i kind known
      refine .record (distinct_pruneFields distinct) ?_
      intro name value member
      obtain ⟨-, held, present, rfl⟩ := mem_pruneFields_iff.mp member
      exact ih name held present
    · exact .record distinct each
  | list each => exact .list each
  | null => exact .null
  | bool value => exact .bool value
  | number mantissa places => exact .number mantissa places
  | string text => exact .string text

theorem alike_pruneFields {kind : Kind} {fields expected : List (String × Datum)}
    (distinct : (fields.map Prod.fst).Nodup) (names : expected.map Prod.fst = kind.fields)
    (each : ∀ name value, (name, value) ∈ expected →
      ∃ held, (name, held) ∈ fields ∧ value.Alike held.prune) :
    (Datum.record expected).Alike (.record (pruneFields kind fields)) := by
  refine .record ?_ ?_
  · rw [names, List.perm_ext_iff_of_nodup kind.nodup_fields (distinct_pruneFields distinct)]
    intro name
    constructor
    · intro belongs
      obtain ⟨⟨_, value⟩, member, rfl⟩ := List.mem_map.mp (names ▸ belongs)
      obtain ⟨held, present, -⟩ := each _ value member
      exact List.mem_map.mpr ⟨_, mem_pruneFields_iff.mpr ⟨belongs, held, present, rfl⟩, rfl⟩
    · intro kept
      obtain ⟨⟨_, value⟩, member, rfl⟩ := List.mem_map.mp kept
      exact (mem_pruneFields_iff.mp member).1
  · intro name value other member kept
    obtain ⟨held, present, alike⟩ := each name value member
    obtain ⟨-, same, presentToo, rfl⟩ := mem_pruneFields_iff.mp kept
    -- There is only one field of that name to keep.
    rw [← lookup_eq_some_iff_mem distinct] at present presentToo
    cases present.symm.trans presentToo
    exact alike

theorem string?_eq_of_alike {value other : Datum} (alike : value.Alike other) : value.string? = other.string? := by
  cases alike with
  | refl | list | record => rfl

end Datum

/-! ### Reading -/

namespace Expr

open Datum

def Side.field : Side → String
  | .left => "left"
  | .right => "right"

theorem ofDatum?_eq (datum : Datum) : ofDatum? datum = (do
    let kind ← recordKind? datum
    let key ← recordKey? datum
    match kind with
    | .op =>
      let left ← (datum.field? "left").bind ofDatum?
      let right ← (datum.field? "right").bind ofDatum?
      return .op key left right
    | .var => return .var key
    | .int => return .int key) := by
  rw [ofDatum?]
  cases recordKind? datum with
  | none => rfl
  | some kind =>
    cases recordKey? datum with
    | none => rfl
    | some key =>
      cases kind with
      | var | int => rfl
      | op =>
        cases datum.field? "left" with
        | none => simp
        | some left =>
          cases datum.field? "right" with
          | none => simp
          | some right => simp

theorem recordKind?_eq_some_iff {datum : Datum} {kind : Kind} :
    recordKind? datum = some kind ↔ datum.field? "kind" = some (.string kind.name) := by
  rw [recordKind?]
  constructor
  · intro known
    obtain ⟨text, held, named⟩ := Option.bind_eq_some_iff.mp known
    obtain ⟨value, found, written⟩ := Option.bind_eq_some_iff.mp held
    cases value with
    | string text =>
      cases written
      rw [found, Kind.name_of_ofName? named]
    | _ => cases written
  · intro found
    rw [found]
    exact Kind.ofName?_name kind

theorem recordKey?_eq_some_iff {datum : Datum} {key : String} :
    recordKey? datum = some key ↔ datum.field? "key" = some (.string key) := by
  rw [recordKey?]
  constructor
  · intro keyed
    obtain ⟨value, found, written⟩ := Option.bind_eq_some_iff.mp keyed
    cases value with
    | string text =>
      cases written
      exact found
    | _ => cases written
  · intro found
    rw [found]
    rfl

/-- What is read of a value: its kind, its key and, under an operator, its operands. -/
theorem ofDatum?_eq_some_iff {datum : Datum} {e : Expr} : ofDatum? datum = some e ↔
    datum.field? "kind" = some (.string e.kind.name) ∧ datum.field? "key" = some (.string e.key) ∧
      ∀ side operand, e.operand? side = some operand →
        (datum.field? side.field).bind ofDatum? = some operand := by
  rw [ofDatum?_eq]
  constructor
  · intro read
    obtain ⟨kind, known, read⟩ := Option.bind_eq_some_iff.mp read
    obtain ⟨key, keyed, read⟩ := Option.bind_eq_some_iff.mp read
    rw [recordKind?_eq_some_iff] at known
    rw [recordKey?_eq_some_iff] at keyed
    cases kind with
    | op =>
      obtain ⟨left, leftRead, read⟩ := Option.bind_eq_some_iff.mp read
      obtain ⟨right, rightRead, read⟩ := Option.bind_eq_some_iff.mp read
      cases read
      refine ⟨known, keyed, ?_⟩
      intro side operand found
      cases side with
      | left =>
        cases found
        exact leftRead
      | right =>
        cases found
        exact rightRead
    | var =>
      cases read
      exact ⟨known, keyed, by rintro (_ | _) operand ⟨⟩⟩
    | int =>
      cases read
      exact ⟨known, keyed, by rintro (_ | _) operand ⟨⟩⟩
  · rintro ⟨known, keyed, operands⟩
    rw [recordKind?_eq_some_iff.mpr known, recordKey?_eq_some_iff.mpr keyed]
    cases e with
    | op key left right =>
      have leftRead : (datum.field? "left").bind ofDatum? = some left := operands .left left rfl
      have rightRead : (datum.field? "right").bind ofDatum? = some right := operands .right right rfl
      simp [kind, Expr.key, leftRead, rightRead]
    | var key => rfl
    | int key => rfl

theorem ofDatum?_toDatum (e : Expr) : ofDatum? e.toDatum = some e := by
  rw [ofDatum?_eq_some_iff]
  induction e with
  | op key left right leftRead rightRead =>
    refine ⟨rfl, rfl, ?_⟩
    rw [← ofDatum?_eq_some_iff] at leftRead rightRead
    intro side operand found
    cases side with
    | left =>
      cases found
      exact leftRead
    | right =>
      cases found
      exact rightRead
  | var key => exact ⟨rfl, rfl, by rintro (_ | _) operand ⟨⟩⟩
  | int key => exact ⟨rfl, rfl, by rintro (_ | _) operand ⟨⟩⟩

theorem namesOnce_toDatum (e : Expr) : e.toDatum.NamesOnce := by
  induction e with
  | op key left right leftOnce rightOnce =>
    refine .record (Kind.nodup_fields .op) ?_
    intro name value member
    simp only [List.mem_cons, List.not_mem_nil, or_false, Prod.mk.injEq] at member
    rcases member with ⟨-, rfl⟩ | ⟨-, rfl⟩ | ⟨-, rfl⟩ | ⟨-, rfl⟩
    · exact .string _
    · exact .string _
    · exact leftOnce
    · exact rightOnce
  | var key | int key =>
    refine .record (Kind.nodup_fields .var) ?_
    intro name value member
    simp only [List.mem_cons, List.not_mem_nil, or_false, Prod.mk.injEq] at member
    rcases member with ⟨-, rfl⟩ | ⟨-, rfl⟩
    · exact .string _
    · exact .string _

/-! ### What is read of a value -/

theorem recordKind?_prune (datum : Datum) : recordKind? datum.prune = recordKind? datum := by
  cases known : recordKind? datum with
  | none => rw [prune_of_recordKind?_eq_none known, known]
  | some kind =>
    rw [recordKind?, string?_field?_prune known (by cases kind <;> decide)]
    exact known

theorem recordKey?_prune (datum : Datum) : recordKey? datum.prune = recordKey? datum := by
  cases known : recordKind? datum with
  | none => rw [prune_of_recordKind?_eq_none known]
  | some kind => exact string?_field?_prune known (by cases kind <;> decide)

/-- The fields that are dropped are none that is read. -/
theorem ofDatum?_prune (datum : Datum) : ofDatum? datum.prune = ofDatum? datum := by
  induction size : sizeOf datum using Nat.strongRecOn generalizing datum with
  | ind _ smaller =>
    subst size
    rw [ofDatum?_eq, ofDatum?_eq datum, recordKind?_prune, recordKey?_prune]
    cases known : recordKind? datum with
    | none => rfl
    | some kind =>
      cases kind with
      | var | int => rfl
      | op =>
        have operand (name : String) (own : name ∈ Kind.op.fields) :
            (datum.prune.field? name).bind ofDatum? = (datum.field? name).bind ofDatum? := by
          rw [field?_prune known own]
          cases found : datum.field? name with
          | none => rfl
          | some value => exact smaller _ (sizeOf_lt_of_field? found) value rfl
        rw [operand "left" (by decide), operand "right" (by decide)]

/-- The order of fields does not matter to a reader. -/
theorem ofDatum?_eq_of_alike {datum other : Datum} (alike : datum.Alike other) (once : datum.NamesOnce)
    (onceToo : other.NamesOnce) : ofDatum? datum = ofDatum? other := by
  induction alike with
  | refl => rfl
  | list => rw [ofDatum?_eq, ofDatum?_eq]; rfl
  | @record fields others names each ih =>
    cases once with | record distinct within =>
    cases onceToo with | record distinctToo withinToo =>
    have texts (name : String) : (fields.lookup name).bind string? = (others.lookup name).bind string? := by
      apply bind_lookup_congr distinct distinctToo names
      intro value other member memberToo
      exact string?_eq_of_alike (each name value other member memberToo)
    have operands (name : String) : (fields.lookup name).bind ofDatum? = (others.lookup name).bind ofDatum? := by
      apply bind_lookup_congr distinct distinctToo names
      intro value other member memberToo
      exact ih name value other member memberToo (within _ _ member) (withinToo _ _ memberToo)
    rw [ofDatum?_eq, ofDatum?_eq (.record others)]
    simp only [recordKind?, recordKey?, field?, texts, operands]

/-- The fields that a tree is read from, with values for its operands that are read in turn. -/
structure ReadFrom (e : Expr) (fields : List (String × Datum)) : Prop where
  distinct : (fields.map Prod.fst).Nodup
  kinded : ("kind", .string e.kind.name) ∈ fields
  keyed : ("key", .string e.key) ∈ fields
  operands : ∀ side operand, e.operand? side = some operand →
    ∃ value, (side.field, value) ∈ fields ∧ value.NamesOnce ∧ ofDatum? value = some operand

theorem exists_readFrom {datum : Datum} {e : Expr} (once : datum.NamesOnce)
    (read : ofDatum? datum = some e) : ∃ fields,
      datum = .record fields ∧ datum.prune = .record (pruneFields e.kind fields) ∧ e.ReadFrom fields := by
  obtain ⟨kinded, keyed, operands⟩ := ofDatum?_eq_some_iff.mp read
  obtain ⟨fields, rfl, pruned⟩ := exists_fields_of_recordKind? (recordKind?_eq_some_iff.mpr kinded)
  cases once with | record distinct within =>
  rw [field?, lookup_eq_some_iff_mem distinct] at kinded keyed
  refine ⟨fields, rfl, pruned, distinct, kinded, keyed, ?_⟩
  intro side operand found
  obtain ⟨value, held, valueRead⟩ := Option.bind_eq_some_iff.mp (operands side operand found)
  rw [field?, lookup_eq_some_iff_mem distinct] at held
  exact ⟨value, held, within _ _ held, valueRead⟩

/-- A tree that is read is its own record but for foreign fields and the order of the others. -/
theorem alike_prune_of_ofDatum? {datum : Datum} {e : Expr} (once : datum.NamesOnce)
    (read : ofDatum? datum = some e) : e.toDatum.Alike datum.prune := by
  induction e generalizing datum with
  | op key left right leftAlike rightAlike =>
    obtain ⟨fields, rfl, pruned, holds⟩ := exists_readFrom once read
    obtain ⟨first, firstHeld, firstOnce, firstRead⟩ := holds.operands .left left rfl
    obtain ⟨second, secondHeld, secondOnce, secondRead⟩ := holds.operands .right right rfl
    rw [pruned]
    apply alike_pruneFields holds.distinct rfl
    intro name value member
    simp only [List.mem_cons, List.not_mem_nil, or_false, Prod.mk.injEq] at member
    rcases member with ⟨rfl, rfl⟩ | ⟨rfl, rfl⟩ | ⟨rfl, rfl⟩ | ⟨rfl, rfl⟩
    · exact ⟨_, holds.kinded, .refl _⟩
    · exact ⟨_, holds.keyed, .refl _⟩
    · exact ⟨first, firstHeld, leftAlike firstOnce firstRead⟩
    · exact ⟨second, secondHeld, rightAlike secondOnce secondRead⟩
  | var key | int key =>
    obtain ⟨fields, rfl, pruned, holds⟩ := exists_readFrom once read
    rw [pruned]
    apply alike_pruneFields holds.distinct rfl
    intro name value member
    simp only [List.mem_cons, List.not_mem_nil, or_false, Prod.mk.injEq] at member
    rcases member with ⟨rfl, rfl⟩ | ⟨rfl, rfl⟩
    · exact ⟨_, holds.kinded, .refl _⟩
    · exact ⟨_, holds.keyed, .refl _⟩

theorem isNode_of_ofDatum? {datum : Datum} {e : Expr} (once : datum.NamesOnce)
    (read : ofDatum? datum = some e) : datum.IsNode := by
  induction e generalizing datum with
  | op key left right leftNode rightNode =>
    obtain ⟨fields, rfl, -, holds⟩ := exists_readFrom once read
    obtain ⟨first, firstHeld, firstOnce, firstRead⟩ := holds.operands .left left rfl
    obtain ⟨second, secondHeld, secondOnce, secondRead⟩ := holds.operands .right right rfl
    exact .op holds.kinded holds.keyed firstHeld secondHeld (leftNode firstOnce firstRead)
      (rightNode secondOnce secondRead)
  | var key =>
    obtain ⟨fields, rfl, -, holds⟩ := exists_readFrom once read
    exact .leaf Kind.noConfusion holds.kinded holds.keyed
  | int key =>
    obtain ⟨fields, rfl, -, holds⟩ := exists_readFrom once read
    exact .leaf Kind.noConfusion holds.kinded holds.keyed

theorem exists_ofDatum?_of_isNode {datum : Datum} (node : datum.IsNode) (once : datum.NamesOnce) :
    ∃ e, ofDatum? datum = some e := by
  induction node with
  | @leaf fields kind key bare kinded keyed =>
    cases once with | record distinct within =>
    rw [← lookup_eq_some_iff_mem distinct] at kinded keyed
    cases kind with
    | op => exact absurd rfl bare
    | var => exact ⟨.var key, ofDatum?_eq_some_iff.mpr ⟨kinded, keyed, by rintro (_ | _) operand ⟨⟩⟩⟩
    | int => exact ⟨.int key, ofDatum?_eq_some_iff.mpr ⟨kinded, keyed, by rintro (_ | _) operand ⟨⟩⟩⟩
  | @op fields key left right kinded keyed first second leftNode rightNode leftRead rightRead =>
    cases once with | record distinct within =>
    obtain ⟨leftTree, leftRead⟩ := leftRead (within _ _ first)
    obtain ⟨rightTree, rightRead⟩ := rightRead (within _ _ second)
    rw [← lookup_eq_some_iff_mem distinct] at kinded keyed first second
    refine ⟨.op key leftTree rightTree, ofDatum?_eq_some_iff.mpr ⟨kinded, keyed, ?_⟩⟩
    intro side operand found
    cases side with
    | left =>
      cases found
      rw [Side.field, field?, first]
      exact leftRead
    | right =>
      cases found
      rw [Side.field, field?, second]
      exact rightRead

/-- Every tree is read back from its record. A value is read if it is a node down to its leaves, and as the tree
whose record it is once the fields that belong to no node of its kind are dropped. -/
theorem ofDatum?_reads : (∀ e : Expr, ofDatum? e.toDatum = some e) ∧
    ∀ datum : Datum, datum.NamesOnce →
      ((∃ e, ofDatum? datum = some e) ↔ datum.IsNode) ∧
        ∀ e, ofDatum? datum = some e ↔ e.toDatum.Alike datum.prune := by
  refine ⟨ofDatum?_toDatum, ?_⟩
  intro datum once
  refine ⟨⟨?_, ?_⟩, ?_⟩
  · rintro ⟨e, read⟩
    exact isNode_of_ofDatum? once read
  · intro node
    exact exists_ofDatum?_of_isNode node once
  · intro e
    constructor
    · exact alike_prune_of_ofDatum? once
    · intro alike
      rw [← ofDatum?_prune, ← ofDatum?_eq_of_alike alike (namesOnce_toDatum e) once.prune]
      exact ofDatum?_toDatum e

/-- An operator whose fields stand the other way round, above a leaf that has operands as well. -/
theorem ofDatum?_reads_reordered :
    let leaf : Datum := .record [("left", .null), ("key", .string "é"), ("kind", .string "Variable")]
    let datum : Datum :=
      .record [("right", leaf), ("left", leaf), ("key", .string ""), ("kind", .string "Operator")]
    datum.NamesOnce ∧ ofDatum? datum = some (.op "" (.var "é") (.var "é")) ∧ datum.IsNode ∧
      (toDatum (.op "" (.var "é") (.var "é"))).Alike datum.prune := by
  intro leaf datum
  have leafOnce : leaf.NamesOnce := by
    refine .record (by decide) ?_
    intro name value member
    simp only [List.mem_cons, List.not_mem_nil, or_false, Prod.mk.injEq] at member
    rcases member with ⟨-, rfl⟩ | ⟨-, rfl⟩ | ⟨-, rfl⟩
    · exact .null
    · exact .string _
    · exact .string _
  have once : datum.NamesOnce := by
    refine .record (by decide) ?_
    intro name value member
    simp only [List.mem_cons, List.not_mem_nil, or_false, Prod.mk.injEq] at member
    rcases member with ⟨-, rfl⟩ | ⟨-, rfl⟩ | ⟨-, rfl⟩ | ⟨-, rfl⟩
    · exact leafOnce
    · exact leafOnce
    · exact .string _
    · exact .string _
  have read : ofDatum? datum = some (.op "" (.var "é") (.var "é")) := by
    decide +kernel
  obtain ⟨readable, reads⟩ := ofDatum?_reads.2 datum once
  exact ⟨once, read, readable.mp ⟨_, read⟩, (reads _).mp read⟩

end Expr

end Formula
