import NotePublisher.Text.Utf8

namespace NotePublisher

/-!
# Byte cursors

A cursor is a position among the bytes of a text. It looks at the bytes ahead
and moves forward; it may be moved beyond the end, where nothing is ahead, and
it may stand within a character.
-/

/-- A position in a byte sequence. -/
structure ByteCursor where
  bytes : ByteArray
  position : Nat
  deriving DecidableEq

namespace ByteCursor

/-- The cursor before the first byte of a text. -/
def ofText (text : Text) : ByteCursor where
  bytes := Utf8.encode text
  position := 0

/-- Whether no byte is ahead. -/
def atEnd (cursor : ByteCursor) : Bool :=
  cursor.bytes.size ≤ cursor.position

/-- The byte ahead. -/
def peek? (cursor : ByteCursor) : Option UInt8 :=
  cursor.bytes.data[cursor.position]?

/-- Whether bytes stand at a position. -/
def holdsAt
    (bytes : ByteArray) :
    Nat →
    List UInt8 →
    Bool
  | _, [] => true
  | position, byte :: others =>
      bytes.data[position]? = some byte && holdsAt bytes (position + 1) others

/-- Whether the bytes ahead begin with the bytes of a text. -/
def startsWith
    (cursor : ByteCursor)
    (pattern : Text) :
    Bool :=
  cursor.position ≤ cursor.bytes.size &&
    holdsAt cursor.bytes cursor.position (Utf8.encode pattern).data.toList

/-- Whether a line ends at the cursor: at a line break or at the end. -/
def atLineEnd (cursor : ByteCursor) : Bool :=
  match cursor.peek? with
  | none => true
  | some byte => byte = '\n'.toUInt8 || byte = '\r'.toUInt8

/-- Move by any number of bytes. -/
def advance
    (cursor : ByteCursor)
    (count : Nat) :
    ByteCursor :=
  { cursor with position := cursor.position + count }

/-- Take the byte ahead, if there is one. -/
def next?
    (cursor : ByteCursor) :
    Option (UInt8 × ByteCursor) :=
  cursor.peek?.map fun byte => (byte, cursor.advance 1)

/-- The number of bytes ahead. -/
def remaining (cursor : ByteCursor) : Nat :=
  cursor.bytes.size - cursor.position

@[simp] theorem bytes_advance
    (cursor : ByteCursor)
    (count : Nat) :
    (cursor.advance count).bytes = cursor.bytes :=
  rfl

@[simp] theorem position_advance
    (cursor : ByteCursor)
    (count : Nat) :
    (cursor.advance count).position = cursor.position + count :=
  rfl

@[simp] theorem advance_zero (cursor : ByteCursor) :
    cursor.advance 0 = cursor :=
  rfl

@[simp] theorem advance_advance
    (cursor : ByteCursor)
    (first second : Nat) :
    (cursor.advance first).advance second = cursor.advance (first + second) := by
  simp [advance, Nat.add_assoc]

/-- A cursor at its end has no byte ahead, and only such a cursor. -/
theorem peek?_eq_none_iff
    {cursor : ByteCursor} :
    cursor.peek? = none ↔ cursor.atEnd = true := by
  simp [peek?, atEnd]

/-- Moving on from a byte leaves fewer bytes ahead. -/
theorem remaining_advance_lt
    {cursor : ByteCursor}
    {count : Nat}
    (positive : 0 < count)
    (notAtEnd : ¬ cursor.atEnd = true) :
    (cursor.advance count).remaining < cursor.remaining := by
  simp only [atEnd, decide_eq_true_eq, Nat.not_le] at notAtEnd
  simp only [remaining, bytes_advance, position_advance]
  omega

/-- Move byte by byte to where `stops` holds, or to the end. -/
def skipUntil
    (stops : ByteCursor → Bool)
    (cursor : ByteCursor) :
    ByteCursor :=
  if cursor.atEnd then
    cursor
  else if stops cursor then
    cursor
  else
    skipUntil stops (cursor.advance 1)
termination_by cursor.remaining
decreasing_by exact remaining_advance_lt Nat.one_pos ‹_›

/--
A cursor moves past bytes at which it does not stop, up to one at which it does
or to the end.
-/
theorem exists_skipUntil_eq_advance
    (stops : ByteCursor → Bool)
    (cursor : ByteCursor) :
    ∃ count, cursor.skipUntil stops = cursor.advance count ∧
      ((cursor.advance count).atEnd = true ∨ stops (cursor.advance count) = true) ∧
      ∀ passed < count, stops (cursor.advance passed) = false := by
  induction cursor using skipUntil.induct stops with
  | case1 cursor ended =>
      exact ⟨0, by rw [skipUntil, if_pos ended, advance_zero], .inl ended, by simp⟩
  | case2 cursor ended stopped =>
      exact ⟨0, by rw [skipUntil, if_neg ended, if_pos stopped, advance_zero], .inr stopped,
        by simp⟩
  | case3 cursor ended moves inductionHypothesis =>
      obtain ⟨count, moved, arrives, passes⟩ := inductionHypothesis
      rw [advance_advance] at moved arrives
      refine ⟨1 + count, by rw [skipUntil, if_neg ended, if_neg moves, moved], arrives, ?_⟩
      intro passed before
      cases passed with
      | zero =>
          simpa using moves
      | succ passed =>
          have later := passes passed (by omega)
          rwa [advance_advance, Nat.add_comm] at later

end ByteCursor

end NotePublisher
