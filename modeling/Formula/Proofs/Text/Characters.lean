import Formula.Text.Ascii
import Formula.Text.Utf8

/-!
# Bytes and characters

Reading goes by bytes, and all that it tells apart is ASCII. A byte of a longer character is in no class, so
a class of bytes is a class of characters, told by their first bytes (`Ascii.Tells`), and the longest run of
bytes in it is the text of the longest run of characters (`takeWhile_encode`).
-/

namespace Formula

/-! ### Listed characters

What is asked of listed characters is decided on the list, not on all characters there are. -/

instance (priority := 2000) decidableForallListed (p : Char → Prop) [DecidablePred p] (chars : List Char) :
    Decidable (∀ c ∈ chars, p c) :=
  List.decidableBAll p chars

instance (priority := 2000) decidableExistsListed (p : Char → Prop) [DecidablePred p] (chars : List Char) :
    Decidable (∃ c ∈ chars, p c) :=
  List.decidableBEx p chars

theorem head?_singleton_append (c : Char) (rest : String) :
    (String.singleton c ++ rest).toList.head? = some c := by
  rw [String.toList_append, String.toList_singleton]
  rfl

namespace Utf8

theorem encode_eq_flatMap (text : String) : encode text = text.toList.flatMap String.utf8EncodeChar := by
  have same : encode text = text.toList.utf8Encode.data.toList := by
    rw [encode, ← String.toByteArray_ofList, String.ofList_toList]
  rw [same]
  simp [List.utf8Encode]

theorem encode_singleton (c : Char) : encode (String.singleton c) = String.utf8EncodeChar c := by
  rw [encode_eq_flatMap, String.toList_singleton, List.flatMap_singleton]

def firstByte (c : Char) : UInt8 := (String.utf8EncodeChar c).headD 0

theorem exists_utf8EncodeChar_eq (c : Char) : ∃ more, String.utf8EncodeChar c = firstByte c :: more := by
  unfold firstByte
  cases same : String.utf8EncodeChar c with
  | nil => exact (String.utf8EncodeChar_ne_nil same).elim
  | cons first more => exact ⟨more, rfl⟩

theorem head?_encode (text : String) : (encode text).head? = text.toList.head?.map firstByte := by
  rw [encode_eq_flatMap]
  cases text.toList with
  | nil => rfl
  | cons c rest =>
    obtain ⟨more, same⟩ := exists_utf8EncodeChar_eq c
    rw [List.flatMap_cons, same, List.cons_append]
    rfl

theorem utf8EncodeChar_of_ascii {c : Char} (ascii : c.toNat < 128) :
    String.utf8EncodeChar c = [c.toUInt8] := by
  have below : c.val ≤ 127 := UInt32.le_iff_toNat_le.mpr (Nat.le_of_lt_succ ascii)
  exact String.utf8EncodeChar_eq_singleton (Char.utf8Size_eq_one_iff.mpr below)

theorem firstByte_of_ascii {c : Char} (ascii : c.toNat < 128) : firstByte c = c.toUInt8 := by
  rw [firstByte, utf8EncodeChar_of_ascii ascii]
  rfl

theorem encode_cons_of_ascii {c : Char} (ascii : c.toNat < 128) (rest : String) :
    encode (String.singleton c ++ rest) = firstByte c :: encode rest := by
  rw [encode_append, encode_singleton, utf8EncodeChar_of_ascii ascii, firstByte_of_ascii ascii]
  rfl

theorem toNat_toUInt8_of_ascii {c : Char} (ascii : c.toNat < 128) : c.toUInt8.toNat = c.toNat := by
  have same : c.toUInt8.toNat = c.toNat % 2 ^ 8 := UInt32.toNat_toUInt8 c.val
  omega

/-- The bytes that start a longer character are none of ASCII. -/
theorem firstByte_of_not_ascii {c : Char} (longer : 128 ≤ c.toNat) : 128 ≤ (firstByte c).toNat := by
  have above : ¬ c.val.toNat ≤ 127 := Nat.not_le.mpr longer
  unfold firstByte String.utf8EncodeChar
  simp only [if_neg above]
  split
  · simp only [List.headD_cons, UInt8.toNat_ofNat']
    omega
  · split
    · simp only [List.headD_cons, UInt8.toNat_ofNat']
      omega
    · simp only [List.headD_cons, UInt8.toNat_ofNat']
      omega

theorem toNat_of_getLast?_utf8EncodeChar {c : Char} (longer : 128 ≤ c.toNat) {byte : UInt8}
    (last : (String.utf8EncodeChar c).getLast? = some byte) : 128 ≤ byte.toNat := by
  have above : ¬ c.val.toNat ≤ 127 := Nat.not_le.mpr longer
  unfold String.utf8EncodeChar at last
  simp only [if_neg above] at last
  have final : byte = UInt8.ofNat (c.val.toNat % 64 + 128) := by
    split at last
    · exact (Option.some.inj last).symm
    · split at last
      · exact (Option.some.inj last).symm
      · exact (Option.some.inj last).symm
  rw [final, UInt8.toNat_ofNat']
  omega

theorem eq_of_firstByte_eq {c other : Char} (ascii : c.toNat < 128) (same : firstByte other = firstByte c) :
    other = c := by
  have below := toNat_toUInt8_of_ascii ascii
  rw [firstByte_of_ascii ascii] at same
  by_cases shorter : other.toNat < 128
  · have equal : other.toNat = c.toNat := by
      rw [← toNat_toUInt8_of_ascii shorter, ← firstByte_of_ascii shorter, same, below]
    rw [← Char.ofNat_toNat other, equal, Char.ofNat_toNat]
  · have longer := firstByte_of_not_ascii (Nat.le_of_not_lt shorter)
    rw [same] at longer
    omega

/-- A text that ends in an ASCII byte ends in its character. -/
theorem getLast?_of_getLast?_encode {c : Char} (ascii : c.toNat < 128) {text : String}
    (last : (encode text).getLast? = some c.toUInt8) : text.toList.getLast? = some c := by
  rw [encode_eq_flatMap] at last
  cases ends : text.toList.getLast? with
  | none =>
    rw [List.getLast?_eq_none_iff.mp ends] at last
    cases last
  | some other =>
    obtain ⟨front, same⟩ := List.getLast?_eq_some_iff.mp ends
    rw [same, List.flatMap_append, List.flatMap_singleton, List.getLast?_append] at last
    obtain ⟨byte, final⟩ : ∃ byte, (String.utf8EncodeChar other).getLast? = some byte :=
      ⟨_, List.getLast?_eq_some_getLast String.utf8EncodeChar_ne_nil⟩
    rw [final] at last
    obtain rfl := Option.some.inj last
    have below := toNat_toUInt8_of_ascii ascii
    by_cases shorter : other.toNat < 128
    · rw [utf8EncodeChar_of_ascii shorter, ← firstByte_of_ascii shorter, ← firstByte_of_ascii ascii] at final
      rw [eq_of_firstByte_eq ascii (Option.some.inj final)]
    · have longer := toNat_of_getLast?_utf8EncodeChar (Nat.le_of_not_lt shorter) final
      omega

theorem utf8ByteSize_singleton {c : Char} (ascii : c.toNat < 128) :
    (String.singleton c).utf8ByteSize = 1 := by
  rw [← length_encode, encode_singleton, utf8EncodeChar_of_ascii ascii, List.length_singleton]

end Utf8

namespace Ascii

/-- The test of first bytes and that of characters agree, and hold for ASCII only. -/
structure Tells (test : UInt8 → Bool) (holds : Char → Bool) : Prop where
  ascii : ∀ c, holds c = true → c.toNat < 128
  firstByte : ∀ c, test (Utf8.firstByte c) = holds c

theorem Tells.of_ascii {test : UInt8 → Bool} {holds : Char → Bool}
    (bytes : ∀ byte : UInt8, test byte = true → byte.toNat < 128)
    (chars : ∀ c, holds c = true → c.toNat < 128)
    (same : ∀ n : Fin 128, test (Char.ofNat n).toUInt8 = holds (Char.ofNat n)) : Tells test holds := by
  refine ⟨chars, fun c => ?_⟩
  by_cases ascii : c.toNat < 128
  · have same := same ⟨c.toNat, ascii⟩
    rw [Char.ofNat_toNat] at same
    rw [Utf8.firstByte_of_ascii ascii, same]
  · have longer := Utf8.firstByte_of_not_ascii (Nat.le_of_not_lt ascii)
    have byte : test (Utf8.firstByte c) = false := by
      rw [← Bool.not_eq_true]
      intro held
      have := bytes _ held
      omega
    have char : holds c = false := by
      rw [← Bool.not_eq_true]
      intro held
      exact ascii (chars c held)
    rw [byte, char]

end Ascii

namespace Utf8

variable {test : UInt8 → Bool} {holds : Char → Bool}

theorem all_encode (tells : Ascii.Tells test holds) {run : String} (all : ∀ c ∈ run.toList, holds c = true) :
    ∀ byte ∈ encode run, test byte = true := by
  intro byte member
  rw [encode_eq_flatMap, List.mem_flatMap] at member
  obtain ⟨c, found, member⟩ := member
  have ascii := tells.ascii c (all c found)
  rw [utf8EncodeChar_of_ascii ascii, List.mem_singleton] at member
  rw [member, ← firstByte_of_ascii ascii, tells.firstByte]
  exact all c found

theorem takeWhile_encode_of_stops (tells : Ascii.Tells test holds) {rest : String}
    (stops : ∀ c ∈ rest.toList.head?, holds c = false) : (encode rest).takeWhile test = [] := by
  have first := head?_encode rest
  cases bytes : encode rest with
  | nil => rfl
  | cons byte more =>
    rw [bytes, List.head?_cons, eq_comm, Option.map_eq_some_iff] at first
    obtain ⟨c, starts, rfl⟩ := first
    rw [List.takeWhile_cons_of_neg]
    rw [tells.firstByte, stops c starts]
    exact Bool.false_ne_true

theorem takeWhile_encode (tells : Ascii.Tells test holds) {run rest : String}
    (all : ∀ c ∈ run.toList, holds c = true) (stops : ∀ c ∈ rest.toList.head?, holds c = false) :
    (encode (run ++ rest)).takeWhile test = encode run := by
  rw [encode_append, List.takeWhile_append_of_pos (all_encode tells all), takeWhile_encode_of_stops tells stops,
    List.append_nil]

end Utf8

/-! ### The classes -/

namespace Ascii

/-- One of the six blanks. -/
def isBlankChar (c : Char) : Bool := [' ', '\t', '\n', '\x0B', '\x0C', '\r'].contains c

/-- An ASCII letter or digit, or an underscore. -/
def isNameChar (c : Char) : Bool := c.isAlphanum || c == '_'

theorem toNat_le_of_isBlank {byte : UInt8} (h : isBlank byte = true) : byte.toNat ≤ 0x20 := by
  simp only [isBlank, Bool.or_eq_true, beq_iff_eq, Bool.and_eq_true, decide_eq_true_eq,
    UInt8.le_iff_toNat_le] at h
  rcases h with rfl | ⟨-, above⟩
  · decide
  · exact Nat.le_trans above (by decide)

theorem toNat_le_of_isNameByte {byte : UInt8} (h : isNameByte byte = true) : byte.toNat ≤ 0x7A := by
  simp only [isNameByte, isDigit, Bool.or_eq_true, beq_iff_eq, Bool.and_eq_true, decide_eq_true_eq,
    UInt8.le_iff_toNat_le] at h
  rcases h with ((⟨-, above⟩ | ⟨-, above⟩) | ⟨-, above⟩) | rfl
  · exact Nat.le_trans above (by decide)
  · exact Nat.le_trans above (by decide)
  · exact above
  · decide

theorem isAscii_iff {byte : UInt8} : isAscii byte = true ↔ byte.toNat < 128 := by
  rw [isAscii, decide_eq_true_eq, UInt8.lt_iff_toNat_lt]
  rfl

theorem isAscii_of_isBlank {byte : UInt8} (h : isBlank byte = true) : isAscii byte = true := by
  have := toNat_le_of_isBlank h
  exact isAscii_iff.mpr (by omega)

theorem isAscii_of_isNameByte {byte : UInt8} (h : isNameByte byte = true) : isAscii byte = true := by
  have := toNat_le_of_isNameByte h
  exact isAscii_iff.mpr (by omega)

theorem not_isNameChar_of_isBlankChar {c : Char} (blank : isBlankChar c = true) : isNameChar c = false := by
  rw [isBlankChar, List.contains_iff_mem] at blank
  revert c
  decide

theorem tells_isBlank : Tells isBlank isBlankChar := by
  refine .of_ascii (fun byte h => ?_) (fun c h => ?_) (by decide)
  · have := toNat_le_of_isBlank h
    omega
  · rw [isBlankChar, List.contains_iff_mem] at h
    revert c
    decide

theorem toNat_le_of_isNameChar {c : Char} (h : isNameChar c = true) : c.toNat ≤ 0x7A := by
  delta isNameChar Char.isAlphanum Char.isAlpha Char.isUpper Char.isLower Char.isDigit at h
  simp only [Bool.or_eq_true, Bool.and_eq_true, decide_eq_true_eq, beq_iff_eq, UInt32.le_iff_toNat_le,
    ge_iff_le] at h
  rcases h with ((⟨-, above⟩ | ⟨-, above⟩) | ⟨-, above⟩) | rfl
  · exact Nat.le_trans above (by decide)
  · exact above
  · exact Nat.le_trans above (by decide)
  · decide

theorem tells_isNameByte : Tells isNameByte isNameChar := by
  refine .of_ascii (fun byte h => ?_) (fun c h => ?_) (by decide)
  · have := toNat_le_of_isNameByte h
    omega
  · have := toNat_le_of_isNameChar h
    omega

theorem isNameChar_of_isDigit {c : Char} (h : c.isDigit = true) : isNameChar c = true := by
  simp [isNameChar, Char.isAlphanum, h]

theorem tells_isDigit : Tells isDigit Char.isDigit := by
  refine .of_ascii (fun byte h => ?_) (fun c h => ?_) (by decide)
  · have := toNat_le_of_isNameByte (isNameByte_of_isDigit h)
    omega
  · have := toNat_le_of_isNameChar (isNameChar_of_isDigit h)
    omega

end Ascii

end Formula
