/-!
# Data

The values of a data format: literals, lists, and records of named fields. Trees are kept as records
(`Formula.Expr.Record`).
-/

namespace Formula

/-- A value. The number is `mantissa` divided by ten to the power `places`. -/
inductive Datum where
  | null
  | bool (value : Bool)
  | number (mantissa : Int) (places : Nat)
  | string (text : String)
  | list (items : List Datum)
  | record (fields : List (String × Datum))
  deriving Repr, Inhabited

namespace Datum

/-- The first field with a name. Only records have fields. -/
def field? (datum : Datum) (name : String) : Option Datum :=
  match datum with
  | .record fields => fields.lookup name
  | _ => none

def string? : Datum → Option String
  | .string text => some text
  | _ => none

theorem sizeOf_lt_of_lookup {fields : List (String × Datum)} {name : String} {datum : Datum}
    (h : fields.lookup name = some datum) : sizeOf datum < sizeOf fields := by
  induction fields with
  | nil => simp at h
  | cons entry rest ih =>
    obtain ⟨key, value⟩ := entry
    simp only [List.lookup_cons] at h
    simp only [List.cons.sizeOf_spec, Prod.mk.sizeOf_spec]
    split at h
    · obtain rfl := Option.some.inj h
      omega
    · have := ih h
      omega

theorem sizeOf_lt_of_field? {datum field : Datum} {name : String}
    (h : datum.field? name = some field) : sizeOf field < sizeOf datum := by
  cases datum with
  | record fields =>
    have := sizeOf_lt_of_lookup h
    simp only [record.sizeOf_spec]
    omega
  | _ => simp [field?] at h

end Datum

end Formula
