import NotePublisher.Text.Utf8

namespace NotePublisher

/-!
# The bytes of a text

The delimiters of a document are ASCII characters. The byte of such a character
stands in the UTF-8 form of a text where the character stands, and nowhere else
(`Text.getElem?_bytes_eq_some_iff`), so a reader of bytes and a reader of
characters find the same delimiters.
-/

namespace Text

/-- The bytes of the UTF-8 form of a text. -/
def bytes (text : Text) : List UInt8 :=
  (Utf8.encode text).data.toList

theorem bytes_append
    (left right : Text) :
    bytes (left ++ right) = bytes left ++ bytes right := by
  rw [bytes, Utf8.encode_append, ByteArray.data_append, Array.toList_append, bytes, bytes]

theorem bytes_singleton (char : Char) :
    bytes [char] = String.utf8EncodeChar char := by
  rw [bytes, Utf8.encode, String.toByteArray_ofList, List.utf8Encode_singleton,
    List.toList_data_toByteArray]

theorem bytes_cons
    (char : Char)
    (text : Text) :
    bytes (char :: text) = String.utf8EncodeChar char ++ bytes text := by
  rw [← bytes_singleton, ← bytes_append, List.singleton_append]

@[simp] theorem length_bytes (text : Text) :
    (bytes text).length = byteLength text := by
  induction text with
  | nil =>
      rfl
  | cons char rest inductionHypothesis =>
      rw [bytes_cons, List.length_append, String.length_utf8EncodeChar, inductionHypothesis,
        byteLength_cons]

/-- Setting bits makes a byte no smaller. -/
private theorem le_or_of_le
    {bound mask : UInt8}
    (le : bound ≤ mask)
    (byte : UInt8) :
    bound ≤ byte ||| mask := by
  rw [UInt8.le_iff_toNat_le] at le ⊢
  rw [UInt8.toNat_or]
  exact Nat.le_trans le Nat.right_le_or

/-- Every byte of a character that takes several is beyond ASCII. -/
private theorem le_of_mem_utf8EncodeChar
    {char : Char}
    (wide : char.utf8Size ≠ 1)
    {byte : UInt8}
    (member : byte ∈ String.utf8EncodeChar char) :
    128 ≤ byte := by
  rcases char.utf8Size_eq with one | two | three | four
  · exact absurd one wide
  · rw [String.utf8EncodeChar_eq_cons_cons two] at member
    simp only [List.mem_cons, List.not_mem_nil, or_false] at member
    rcases member with rfl | rfl <;> exact le_or_of_le (by decide) _
  · rw [String.utf8EncodeChar_eq_cons_cons_cons three] at member
    simp only [List.mem_cons, List.not_mem_nil, or_false] at member
    rcases member with rfl | rfl | rfl <;> exact le_or_of_le (by decide) _
  · rw [String.utf8EncodeChar_eq_cons_cons_cons_cons four] at member
    simp only [List.mem_cons, List.not_mem_nil, or_false] at member
    rcases member with rfl | rfl | rfl | rfl <;> exact le_or_of_le (by decide) _

section Ascii

variable {char : Char} (ascii : char.utf8Size = 1)

include ascii

/-- An ASCII character is its byte. -/
private theorem toNat_toUInt8 :
    char.toUInt8.toNat = char.toNat := by
  have small := UInt32.le_iff_toNat_le.mp (Char.utf8Size_eq_one_iff.mp ascii)
  rw [Char.toUInt8, UInt32.toNat_toUInt8]
  exact Nat.mod_eq_of_lt (Nat.lt_of_le_of_lt small (by decide))

/-- An ASCII byte is a byte of the ASCII character that it stands for, and of no other one. -/
private theorem eq_of_toUInt8_mem
    {other : Char}
    (member : char.toUInt8 ∈ String.utf8EncodeChar other) :
    other = char := by
  have small := UInt32.le_iff_toNat_le.mp (Char.utf8Size_eq_one_iff.mp ascii)
  by_cases wide : other.utf8Size = 1
  · rw [String.utf8EncodeChar_eq_singleton wide, List.mem_singleton] at member
    have same := congrArg UInt8.toNat member
    rw [toNat_toUInt8 ascii] at same
    exact (Char.toNat_inj.mp (same.trans (toNat_toUInt8 wide))).symm
  · have large := UInt8.le_iff_toNat_le.mp (le_of_mem_utf8EncodeChar wide member)
    rw [toNat_toUInt8 ascii] at large
    exact absurd (Nat.le_trans large small) (by decide)

theorem bytes_cons_ascii (text : Text) :
    bytes (char :: text) = char.toUInt8 :: bytes text := by
  rw [bytes_cons, String.utf8EncodeChar_eq_singleton ascii]
  rfl

/-- The byte of an ASCII character stands where the character stands. -/
theorem getElem?_bytes_eq_some_iff
    {text : Text}
    {position : Nat} :
    (bytes text)[position]? = some char.toUInt8 ↔
      ∃ before after, text = before ++ char :: after ∧ byteLength before = position := by
  constructor
  · intro found
    induction text generalizing position with
    | nil =>
        cases found
    | cons first rest inductionHypothesis =>
        rw [bytes_cons] at found
        by_cases inFirst : position < (String.utf8EncodeChar first).length
        · rw [List.getElem?_append_left inFirst] at found
          obtain rfl := eq_of_toUInt8_mem ascii (List.mem_of_getElem? found)
          rw [String.length_utf8EncodeChar, ascii, Nat.lt_one_iff] at inFirst
          exact ⟨[], rest, rfl, inFirst.symm⟩
        · rw [Nat.not_lt] at inFirst
          rw [List.getElem?_append_right inFirst] at found
          obtain ⟨before, after, rfl, sized⟩ := inductionHypothesis found
          rw [String.length_utf8EncodeChar] at inFirst sized
          exact ⟨first :: before, after, rfl, by rw [byteLength_cons]; omega⟩
  · rintro ⟨before, after, rfl, rfl⟩
    rw [bytes_append, List.getElem?_append_right (by simp), bytes_cons_ascii ascii]
    simp

/-- No ASCII byte is found inside of a first character. -/
theorem eq_zero_or_le_of_getElem?_bytes_cons
    {first : Char}
    {rest : Text}
    {position : Nat}
    (found : (bytes (first :: rest))[position]? = some char.toUInt8) :
    position = 0 ∨ first.utf8Size ≤ position := by
  obtain ⟨before, after, shape, rfl⟩ := (getElem?_bytes_eq_some_iff ascii).mp found
  cases before with
  | nil =>
      exact .inl rfl
  | cons char others =>
      obtain ⟨rfl, -⟩ := List.cons.inj shape
      exact .inr (Nat.le_add_right _ _)

/-- The first byte is that of an ASCII character exactly if the first character is that one. -/
theorem getElem?_bytes_zero_eq_some_iff
    {text : Text} :
    (bytes text)[0]? = some char.toUInt8 ↔ text.head? = some char := by
  rw [getElem?_bytes_eq_some_iff ascii, List.head?_eq_some_iff]
  constructor
  · rintro ⟨before, after, rfl, sized⟩
    obtain rfl := byteLength_eq_zero_iff.mp sized
    exact ⟨after, rfl⟩
  · rintro ⟨after, rfl⟩
    exact ⟨[], after, rfl, rfl⟩

/-- A byte that is found stands for a character of the text. -/
theorem mem_of_getElem?_bytes
    {text : Text}
    {position : Nat}
    (found : (bytes text)[position]? = some char.toUInt8) :
    char ∈ text := by
  obtain ⟨before, after, rfl, -⟩ := (getElem?_bytes_eq_some_iff ascii).mp found
  simp

/-- The byte of an ASCII character stands for it only. -/
theorem toUInt8_mem_bytes_iff
    {text : Text} :
    char.toUInt8 ∈ bytes text ↔ char ∈ text := by
  constructor
  · intro member
    obtain ⟨position, found⟩ := List.mem_iff_getElem?.mp member
    exact mem_of_getElem?_bytes ascii found
  · intro member
    obtain ⟨before, after, rfl⟩ := List.append_of_mem member
    exact List.mem_of_getElem? ((getElem?_bytes_eq_some_iff ascii).mpr ⟨before, after, rfl, rfl⟩)

end Ascii

/-- Behind a first part the bytes are those of the rest. -/
theorem getElem?_bytes_append
    (front text : Text)
    (offset : Nat) :
    (bytes (front ++ text))[byteLength front + offset]? = (bytes text)[offset]? := by
  rw [bytes_append, List.getElem?_append_right (by simp), length_bytes, Nat.add_sub_cancel_left]

/-- Within a first part the bytes are those of the part. -/
theorem getElem?_bytes_append_of_lt
    {front : Text}
    {offset : Nat}
    (inFront : offset < byteLength front)
    (text : Text) :
    (bytes (front ++ text))[offset]? = (bytes front)[offset]? := by
  rw [bytes_append, List.getElem?_append_left (by simpa using inFront)]

end Text

end NotePublisher
