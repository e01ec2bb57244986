import NotePublisher.Text.Scanner

namespace NotePublisher

/-!
# Callouts

A note callout opens with the marker `[!NOTE]`, which `expandCallouts` turns
into a glyph. The markers of other callouts stay as they are.
-/

/-- A note callout's marker. -/
inductive NoteMarker where
  | note
  deriving DecidableEq, Repr

namespace NoteMarker

/-- The text of the marker. -/
def text : Text :=
  ['[', '!', 'N', 'O', 'T', 'E', ']']

/-- What stands for the marker on a page. -/
def glyph : Text :=
  ['📝']

/-- The markers of a text. -/
def recogniser : Recogniser NoteMarker where
  recognise? front := (Text.dropStart? text front).map fun rest => (note, rest)
  source _ := text
  source_ne_nil := by
    intro _
    simp [text]
  eq_source_append := by
    intro front _ rest found
    simp only [Option.map_eq_some_iff, Prod.mk.injEq] at found
    obtain ⟨tail, starts, _, rfl⟩ := found
    exact Text.dropStart?_eq_some_iff.mp starts

end NoteMarker

/-- A text with a glyph for each note marker. -/
def expandCallouts (text : Text) : Text :=
  NoteMarker.recogniser.replace (fun _ => NoteMarker.glyph) text

end NotePublisher
