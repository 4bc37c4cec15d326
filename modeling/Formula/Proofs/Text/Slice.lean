import Formula.Proofs.Text.Characters

/-!
# Pieces of a text

A byte offset of a text is on a character boundary when it is `String.Pos.Raw.IsValid`, and what stands between
two such offsets is a text again (`exists_isSlice`). ASCII bytes are characters of their own, so every run of
them stands between boundaries (`isValid_of_ascii`, `isValid_add_of_ascii`).
-/

namespace Formula.Utf8

open Ascii (isAscii)

variable {text piece : String} {start stop offset : Nat}

/-- Between two byte offsets of `text`, both on character boundaries, stands `piece`. -/
def IsSlice (text piece : String) (start stop : Nat) : Prop :=
  ∃ front behind, text = front ++ piece ++ behind ∧ start = front.utf8ByteSize ∧
    stop = (front ++ piece).utf8ByteSize

theorem isValid_iff : String.Pos.Raw.IsValid text ⟨offset⟩ ↔
    ∃ front behind, text = front ++ behind ∧ offset = front.utf8ByteSize := by
  rw [String.Pos.Raw.isValid_iff_exists_append]
  constructor
  · rintro ⟨front, behind, rfl, same⟩
    exact ⟨front, behind, rfl, congrArg String.Pos.Raw.byteIdx same⟩
  · rintro ⟨front, behind, rfl, rfl⟩
    exact ⟨front, behind, rfl, rfl⟩

theorem le_of_isValid (valid : String.Pos.Raw.IsValid text ⟨offset⟩) : offset ≤ text.utf8ByteSize := by
  obtain ⟨front, behind, rfl, rfl⟩ := isValid_iff.mp valid
  rw [String.utf8ByteSize_append]
  exact Nat.le_add_right _ _

theorem isValid_zero (text : String) : String.Pos.Raw.IsValid text ⟨0⟩ :=
  isValid_iff.mpr ⟨"", text, String.empty_append.symm, rfl⟩

namespace IsSlice

theorem isValid_start (slice : IsSlice text piece start stop) : String.Pos.Raw.IsValid text ⟨start⟩ := by
  obtain ⟨front, behind, split, same, -⟩ := slice
  exact isValid_iff.mpr ⟨front, piece ++ behind, by rw [split, String.append_assoc], same⟩

theorem isValid_stop (slice : IsSlice text piece start stop) : String.Pos.Raw.IsValid text ⟨stop⟩ := by
  obtain ⟨front, behind, split, -, same⟩ := slice
  exact isValid_iff.mpr ⟨front ++ piece, behind, split, same⟩

theorem le (slice : IsSlice text piece start stop) : start ≤ stop := by
  obtain ⟨front, _, -, rfl, rfl⟩ := slice
  rw [String.utf8ByteSize_append]
  exact Nat.le_add_right _ _

theorem encode_eq (slice : IsSlice text piece start stop) :
    encode piece = ((encode text).take stop).drop start := by
  obtain ⟨front, behind, rfl, rfl, rfl⟩ := slice
  rw [encode_append, List.take_left' (length_encode _), encode_append, List.drop_left' (length_encode _)]

end IsSlice

theorem exists_isSlice (starts : String.Pos.Raw.IsValid text ⟨start⟩)
    (stops : String.Pos.Raw.IsValid text ⟨stop⟩) (le : start ≤ stop) :
    ∃ piece, IsSlice text piece start stop := by
  obtain ⟨front, behind, rfl, rfl⟩ := isValid_iff.mp starts
  obtain ⟨more, rest, same, rfl⟩ := isValid_iff.mp stops
  have chars := congrArg String.toList same
  rw [String.toList_append, String.toList_append] at chars
  rcases List.append_eq_append_iff.mp chars with ⟨middle, longer, -⟩ | ⟨middle, shorter, -⟩
  · have longer : more = front ++ String.ofList middle := by
      rw [← String.toList_inj, String.toList_append, String.toList_ofList, longer]
    exact ⟨String.ofList middle, front, rest, by rw [same, longer], rfl, by rw [longer]⟩
  · -- The end is not before the start, so nothing is between them.
    have shorter : front = more ++ String.ofList middle := by
      rw [← String.toList_inj, String.toList_append, String.toList_ofList, shorter]
    have nothing : String.ofList middle = "" := by
      rw [shorter, String.utf8ByteSize_append] at le
      exact String.utf8ByteSize_eq_zero_iff.mp (by omega)
    rw [nothing, String.append_empty] at shorter
    exact ⟨"", front, behind, by rw [String.append_empty], rfl, by rw [String.append_empty, shorter]⟩

/-! ### Runs of ASCII -/

theorem isUTF8FirstByte_of_ascii {byte : UInt8} (ascii : isAscii byte = true) : byte.IsUTF8FirstByte := by
  have below : byte.toNat < 2 ^ 7 := Ascii.isAscii_iff.mp ascii
  refine .inl (UInt8.toNat_inj.mp ?_)
  have clear : byte.toNat &&& 2 ^ 7 = 0 := by
    refine Nat.eq_of_testBit_eq fun i => ?_
    rw [Nat.testBit_and, Nat.testBit_two_pow, Nat.zero_testBit]
    by_cases high : 7 = i
    · rw [← high, Nat.testBit_lt_two_pow below, Bool.false_and]
    · rw [decide_eq_false high, Bool.and_false]
  exact clear

theorem isValid_of_ascii {byte : UInt8} {rest : List UInt8} (ahead : (encode text).drop offset = byte :: rest)
    (ascii : isAscii byte = true) : String.Pos.Raw.IsValid text ⟨offset⟩ := by
  have inside : offset < text.utf8ByteSize := by
    rw [← length_encode, ← Nat.not_le, ← List.drop_eq_nil_iff, ahead]
    exact List.cons_ne_nil _ _
  have same : text.getUTF8Byte ⟨offset⟩ inside = byte := by
    have found : (encode text)[offset]? = some byte := by
      rw [← List.head?_drop, ahead]
      rfl
    rw [encode, Array.getElem?_toList] at found
    rw [String.getUTF8Byte]
    exact (Array.getElem?_eq_some_iff.mp found).2
  refine String.Pos.Raw.isValid_iff_isUTF8FirstByte.mpr (.inr ⟨inside, ?_⟩)
  rw [same]
  exact isUTF8FirstByte_of_ascii ascii

/-- An ASCII byte is a character. -/
theorem isValid_succ_of_ascii {byte : UInt8} {rest : List UInt8}
    (ahead : (encode text).drop offset = byte :: rest) (ascii : isAscii byte = true) :
    String.Pos.Raw.IsValid text ⟨offset + 1⟩ := by
  obtain ⟨front, behind, rfl, rfl⟩ := isValid_iff.mp (isValid_of_ascii ahead ascii)
  rw [encode_append, List.drop_left' (length_encode _)] at ahead
  have first := head?_encode behind
  rw [ahead, List.head?_cons, eq_comm, Option.map_eq_some_iff] at first
  obtain ⟨c, starts, rfl⟩ := first
  have small : c.toNat < 128 := by
    have below := Ascii.isAscii_iff.mp ascii
    exact Nat.lt_of_not_le fun longer => Nat.not_le.mpr below (firstByte_of_not_ascii longer)
  obtain ⟨more, chars⟩ := List.head?_eq_some_iff.mp starts
  have split : behind = String.singleton c ++ String.ofList more := by
    rw [← String.toList_inj, String.toList_append, String.toList_singleton, String.toList_ofList, chars]
    rfl
  refine isValid_iff.mpr ⟨front ++ String.singleton c, String.ofList more, ?_, ?_⟩
  · rw [split, String.append_assoc]
  · rw [String.utf8ByteSize_append, utf8ByteSize_singleton small]

theorem isValid_add_of_ascii {count : Nat} (valid : String.Pos.Raw.IsValid text ⟨offset⟩)
    (inside : offset + count ≤ text.utf8ByteSize)
    (ascii : ∀ byte ∈ ((encode text).drop offset).take count, isAscii byte = true) :
    String.Pos.Raw.IsValid text ⟨offset + count⟩ := by
  cases count with
  | zero => exact valid
  | succ count =>
    -- The last byte of the run is enough: what is behind it is behind a character.
    have more : offset + count < (encode text).length := by
      rw [length_encode]
      omega
    refine isValid_succ_of_ascii (List.drop_eq_getElem_cons more) (ascii _ ?_)
    rw [List.mem_take_iff_getElem]
    refine ⟨count, ?_, ?_⟩
    · rw [List.length_drop]
      omega
    · rw [List.getElem_drop]

end Formula.Utf8
