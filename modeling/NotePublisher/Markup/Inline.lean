import NotePublisher.Markup.WikiLink
import NotePublisher.Text.ByteCursor

namespace NotePublisher

/-!
# Inline nodes

The inline nodes of a document are its links and the runs of text between
them, as byte spans into the document. A cursor finds them byte by byte: a link
that opens where it stands and is closed on the same line is taken whole, and
elsewhere the cursor moves on by one byte. It may then stand within a
character, but no span begins or ends there, since the delimiters of links are
ASCII characters.
-/

/-- A run of text or a link, as byte spans into a document. -/
inductive InlineNode where
  | text (span : Span)
  | link (full target : Span) (label : Option Span)
  deriving DecidableEq, Repr

namespace InlineNode

/-- The whole range of a node. -/
def full : InlineNode → Span
  | text span => span
  | link full _ _ => full

/-- Whether a link's body ends at a cursor: with its line or at closing brackets. -/
def endsBody (cursor : ByteCursor) : Bool :=
  cursor.atLineEnd || cursor.startsWith WikiLink.closing

/-- Whether a bar is ahead of a cursor. -/
def atBar (cursor : ByteCursor) : Bool :=
  cursor.peek? = some '|'.toUInt8

/-- The label behind a bar at the cursor, if one is there, and the cursor where the body ends. -/
def readLabel (cursor : ByteCursor) : Option Span × ByteCursor :=
  if atBar cursor then
    let start := cursor.advance 1
    let stop := start.skipUntil endsBody
    (some ⟨start.position, stop.position⟩, stop)
  else
    (none, cursor)

/-- The cursor behind a third closing bracket, if one is ahead. -/
def skipStray (cursor : ByteCursor) : ByteCursor :=
  if cursor.peek? = some ']'.toUInt8 then cursor.advance 1 else cursor

/--
The link that opens at a cursor, and the cursor behind it. Where no link opens,
or the link is not closed on its line, the cursor is put back.
-/
def readLink (cursor : ByteCursor) : Option InlineNode × ByteCursor :=
  if cursor.startsWith WikiLink.opening then
    let inside := cursor.advance WikiLink.opening.byteLength
    let targetEnd := inside.skipUntil fun ahead => endsBody ahead || atBar ahead
    let (label, bodyEnd) := readLabel targetEnd
    if bodyEnd.startsWith WikiLink.closing then
      let behind := skipStray (bodyEnd.advance WikiLink.closing.byteLength)
      let node :=
        link ⟨cursor.position, behind.position⟩ ⟨inside.position, targetEnd.position⟩ label
      (some node, behind)
    else
      (none, cursor)
  else
    (none, cursor)

/-- Reading a label moves the cursor on. -/
theorem exists_readLabel_eq_advance (cursor : ByteCursor) :
    ∃ count, (readLabel cursor).2 = cursor.advance count := by
  rw [readLabel]
  split
  · obtain ⟨count, moved, -⟩ := (cursor.advance 1).exists_skipUntil_eq_advance endsBody
    exact ⟨1 + count, moved.trans (ByteCursor.advance_advance cursor 1 count)⟩
  · exact ⟨0, rfl⟩

/-- Skipping a stray bracket moves the cursor on. -/
theorem exists_skipStray_eq_advance (cursor : ByteCursor) :
    ∃ count, skipStray cursor = cursor.advance count := by
  rw [skipStray]
  split
  · exact ⟨1, rfl⟩
  · exact ⟨0, rfl⟩

/-- Behind a link the cursor has moved on; after a failed attempt it stands where it stood. -/
theorem readLink_cases (cursor : ByteCursor) :
    readLink cursor = (none, cursor) ∨
      ∃ node count, 0 < count ∧ readLink cursor = (some node, cursor.advance count) := by
  simp only [readLink]
  split
  · obtain ⟨first, toTarget, -⟩ := (cursor.advance WikiLink.opening.byteLength)
      |>.exists_skipUntil_eq_advance fun ahead => endsBody ahead || atBar ahead
    rw [toTarget]
    obtain ⟨second, toBody⟩ := exists_readLabel_eq_advance
      ((cursor.advance WikiLink.opening.byteLength).advance first)
    rw [toBody]
    split
    · obtain ⟨third, behind⟩ := exists_skipStray_eq_advance
        ((((cursor.advance WikiLink.opening.byteLength).advance first).advance second).advance
          WikiLink.closing.byteLength)
      rw [behind]
      simp only [ByteCursor.advance_advance]
      refine .inr ⟨_, _, ?_, rfl⟩
      exact Nat.lt_of_lt_of_le (show 0 < WikiLink.closing.byteLength by decide) (by omega)
    · exact .inl rfl
  · exact .inl rfl

/-- Fewer bytes are ahead behind a link. -/
theorem remaining_lt_of_readLink
    {cursor behind : ByteCursor}
    {node : InlineNode}
    (notAtEnd : ¬ cursor.atEnd = true)
    (read : readLink cursor = (some node, behind)) :
    behind.remaining < cursor.remaining := by
  rcases readLink_cases cursor with missed | ⟨_, _, positive, taken⟩
  · cases missed.symm.trans read
  · cases taken.symm.trans read
    exact ByteCursor.remaining_advance_lt positive notAtEnd

/-- A failed attempt leaves the cursor where it was. -/
theorem eq_of_readLink
    {cursor same : ByteCursor}
    (missed : readLink cursor = (none, same)) :
    same = cursor := by
  rcases readLink_cases cursor with missedHere | ⟨_, _, _, taken⟩
  · cases missedHere.symm.trans missed
    rfl
  · cases taken.symm.trans missed

/-- The run of text between two positions, unless it is empty. -/
def runBetween (start stop : Nat) : List InlineNode :=
  if start < stop then [text ⟨start, stop⟩] else []

/--
The nodes from a cursor on. The text from `runStart` up to the cursor belongs to
a run that goes on for as long as no link is read.
-/
def parseFrom
    (runStart : Nat)
    (cursor : ByteCursor) :
    List InlineNode :=
  if cursor.atEnd then
    runBetween runStart cursor.position
  else
    match _ : readLink cursor with
    | (some node, behind) =>
        runBetween runStart node.full.start ++ node :: parseFrom node.full.stop behind
    | (none, same) =>
        parseFrom runStart (same.advance 1)
termination_by cursor.remaining
decreasing_by
  · exact remaining_lt_of_readLink ‹_› ‹_›
  · cases eq_of_readLink ‹_›
    exact ByteCursor.remaining_advance_lt Nat.one_pos ‹_›

/-- The inline nodes of a document. -/
def parse (document : Text) : List InlineNode :=
  parseFrom 0 (.ofText document)

end InlineNode

end NotePublisher
