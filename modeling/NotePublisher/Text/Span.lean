import NotePublisher.Text.Basic

namespace NotePublisher

/-!
# Byte spans

A `Span` is a range of bytes of a text. `Span.slice?` is the part of the text
it covers; there is none when the range is inverted, reaches beyond the text
or cuts a character in two. `slice?_append` says that the place of a part in a
text is a span whose slice is that part.
-/

/-- The bytes from `start` up to, and without, `stop`. -/
structure Span where
  start : Nat
  stop : Nat
  deriving DecidableEq, Repr

namespace Text

/-- The text before and after a byte offset that lies between two characters. -/
def splitAtByte? :
    Nat →
    Text →
    Option (Text × Text)
  | 0, text => some ([], text)
  | _ + 1, [] => none
  | offset + 1, char :: rest =>
      if char.utf8Size ≤ offset + 1 then
        (splitAtByte? (offset + 1 - char.utf8Size) rest).map fun (before, after) =>
          (char :: before, after)
      else
        none

/-- The number of bytes of a first part is an offset between two characters. -/
theorem splitAtByte?_byteLength_append
    (before after : Text) :
    splitAtByte? (byteLength before) (before ++ after) = some (before, after) := by
  induction before with
  | nil =>
      simp [splitAtByte?]
  | cons char rest inductionHypothesis =>
      have positive := char.utf8Size_pos
      obtain ⟨offset, offsetEq⟩ : ∃ offset, byteLength (char :: rest) = offset + 1 :=
        ⟨byteLength (char :: rest) - 1, by simp only [byteLength_cons]; omega⟩
      have remaining : offset + 1 - char.utf8Size = byteLength rest := by
        simp only [byteLength_cons] at offsetEq
        omega
      have fits : char.utf8Size ≤ offset + 1 := by
        simp only [byteLength_cons] at offsetEq
        omega
      rw [offsetEq, List.cons_append, splitAtByte?, if_pos fits, remaining,
        inductionHypothesis]
      rfl

end Text

namespace Span

/-- The number of bytes covered; none when the range is inverted. -/
def length (span : Span) : Nat :=
  span.stop - span.start

/-- Whether no byte is covered. -/
def isEmpty (span : Span) : Bool :=
  span.length = 0

/-- Spans in the order of their starts, then of their ends. -/
def order (left right : Span) : Ordering :=
  (compare left.start right.start).then (compare left.stop right.stop)

/-- The part of a text that a span covers. -/
def slice?
    (span : Span)
    (text : Text) :
    Option Text :=
  if span.start ≤ span.stop then
    (Text.splitAtByte? span.start text).bind fun (_, after) =>
      (Text.splitAtByte? span.length after).map Prod.fst
  else
    none

/-- The span of a part of a text, from the text before it. -/
def ofParts (before part : Text) : Span where
  start := Text.byteLength before
  stop := Text.byteLength before + Text.byteLength part

/-- The slice of the place of a part is that part. -/
theorem slice?_append
    (before part after : Text) :
    (ofParts before part).slice? (before ++ part ++ after) = some part := by
  have first := Text.splitAtByte?_byteLength_append before (part ++ after)
  have second := Text.splitAtByte?_byteLength_append part after
  simp [slice?, ofParts, length, first, second]

end Span

end NotePublisher
