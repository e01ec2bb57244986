import NotePublisher.Text.Basic

namespace NotePublisher

/-!
# Texts and their bytes

`Utf8.encode` and `Utf8.decode?` take a text to its bytes and back, and are
inverse to each other (`decode?_eq_some_iff`): a byte sequence is the form of
at most one text. `Utf8.decodeLossy` shows any byte sequence as a text, for
messages only. `byteOrder` is the order in which names and paths are sorted.
-/

/-- Two byte sequences are compared byte by byte. -/
instance decidableEqBytes : DecidableEq ByteArray :=
  ByteArray.instDecidableEq

namespace Utf8

/-- The UTF-8 form of a text. -/
def encode (text : Text) : ByteArray :=
  (String.ofList text).toByteArray

/-- The text with the given UTF-8 form, if there is one. -/
def decode? (bytes : ByteArray) : Option Text :=
  bytes.utf8Decode?.map Array.toList

/-- A text is found again from its bytes. -/
theorem decode?_encode (text : Text) :
    decode? (encode text) = some text := by
  simp [decode?, encode]

/-- A byte sequence decodes to the one text it is the form of. -/
theorem decode?_eq_some_iff
    {bytes : ByteArray}
    {text : Text} :
    decode? bytes = some text ↔ bytes = encode text := by
  constructor
  · intro decoded
    simp only [decode?, Option.map_eq_some_iff] at decoded
    obtain ⟨chars, found, rfl⟩ := decoded
    have valid : bytes.utf8Decode?.isSome := by simp [found]
    have same := ByteArray.utf8Encode_get_utf8Decode? (b := bytes) (h := valid)
    simp only [found, Option.get_some] at same
    exact same.symm
  · rintro rfl
    exact decode?_encode text

/-- Two texts with the same bytes are the same text. -/
theorem encode_inj
    {left right : Text} :
    encode left = encode right ↔ left = right := by
  constructor
  · intro same
    have decoded := decode?_encode left
    rw [same, decode?_encode] at decoded
    exact (Option.some.inj decoded).symm
  · rintro rfl
    rfl

/-- A text is encoded part by part. -/
theorem encode_append (left right : Text) :
    encode (left ++ right) = encode left ++ encode right := by
  simp [encode]

/--
The ranges in which the bytes after a leading byte must lie, or nothing for a
byte that cannot lead. Overlong forms and surrogates are ruled out by the
range of the second byte.
-/
def continuationRanges? (lead : UInt8) : Option (List (UInt8 × UInt8)) :=
  if lead < 0x80 then some []
  else if lead < 0xC2 then none
  else if lead < 0xE0 then some [(0x80, 0xBF)]
  else if lead = 0xE0 then some [(0xA0, 0xBF), (0x80, 0xBF)]
  else if lead = 0xED then some [(0x80, 0x9F), (0x80, 0xBF)]
  else if lead < 0xF0 then some [(0x80, 0xBF), (0x80, 0xBF)]
  else if lead = 0xF0 then some [(0x90, 0xBF), (0x80, 0xBF), (0x80, 0xBF)]
  else if lead < 0xF4 then some [(0x80, 0xBF), (0x80, 0xBF), (0x80, 0xBF)]
  else if lead = 0xF4 then some [(0x80, 0x8F), (0x80, 0xBF), (0x80, 0xBF)]
  else none

/-- How many bytes at the front lie in the ranges given for them. -/
def countInRanges :
    List (UInt8 × UInt8) →
    List UInt8 →
    Nat
  | (low, high) :: ranges, byte :: bytes =>
      if low ≤ byte ∧ byte ≤ high then
        countInRanges ranges bytes + 1
      else
        0
  | _, _ => 0

/-- The character shown in place of bytes that are not part of any text. -/
def replacementChar : Char :=
  '\uFFFD'

/-- The text shown for bytes of which the first `taken` were dealt with before. -/
def decodeLossyBehind :
    Nat →
    List UInt8 →
    Text
  | _, [] => []
  | taken + 1, _ :: bytes =>
      decodeLossyBehind taken bytes
  | 0, lead :: bytes =>
      match continuationRanges? lead with
      | none =>
          replacementChar :: decodeLossyBehind 0 bytes
      | some ranges =>
          let count := countInRanges ranges bytes
          let shown :=
            match decode? (lead :: bytes.take count).toByteArray with
            | some [char] => char
            | _ => replacementChar
          shown :: decodeLossyBehind count bytes

/--
The text shown for any byte sequence: each longest beginning of a character
that is not completed, and each byte that begins none, is shown as one
replacement character.
-/
def decodeLossy (bytes : ByteArray) : Text :=
  decodeLossyBehind 0 bytes.data.toList

end Utf8

/-- Byte sequences in the order of their first difference, a shorter one before a longer. -/
def byteOrder (left right : ByteArray) : Ordering :=
  compare left.data.toList right.data.toList

/-- Only equal byte sequences come neither before nor after each other. -/
theorem byteOrder_eq_iff
    {left right : ByteArray} :
    byteOrder left right = .eq ↔ left = right := by
  rw [byteOrder, Std.LawfulEqOrd.compare_eq_iff_eq]
  constructor
  · intro same
    exact ByteArray.ext (Array.toList_inj.mp same)
  · rintro rfl
    rfl

instance : Std.TransCmp byteOrder where
  eq_swap := by
    unfold byteOrder
    exact Std.OrientedCmp.eq_swap
  isLE_trans := by
    unfold byteOrder
    exact Std.TransCmp.isLE_trans

/-- Texts in the order of their bytes. -/
def Text.order (left right : Text) : Ordering :=
  byteOrder (Utf8.encode left) (Utf8.encode right)

end NotePublisher
