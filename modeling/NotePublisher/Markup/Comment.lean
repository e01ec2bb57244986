import NotePublisher.Text.Scanner

namespace NotePublisher

/-!
# Hidden comments

A comment stands between two double percent signs on one line. It begins as
early and ends as soon as possible. `stripComments` leaves comments out.
-/

/-- A hidden comment. -/
structure Comment where
  /-- The text between the percent signs. -/
  body : Text
  deriving DecidableEq, Repr

namespace Comment

/-- The double percent sign on either side of a comment. -/
def fence : Text :=
  ['%', '%']

/-- The text a comment is written as. -/
def source (comment : Comment) : Text :=
  fence ++ comment.body ++ fence

/-- The comment at the front of a text, and what follows it. -/
def recognise? (text : Text) : Option (Comment × Text) :=
  (Text.dropStart? fence text).bind fun inside =>
    (Text.splitAtFence? fence (· == '\n') inside).map fun (body, rest) =>
      (⟨body⟩, rest)

/-- A recognised comment and what follows it make up the text. -/
theorem eq_source_append
    {text rest : Text}
    {comment : Comment}
    (found : recognise? text = some (comment, rest)) :
    text = comment.source ++ rest := by
  simp only [recognise?, Option.bind_eq_some_iff, Option.map_eq_some_iff,
    Prod.mk.injEq] at found
  obtain ⟨inside, starts, ⟨body, after⟩, fenced, rfl, rfl⟩ := found
  have whole := Text.dropStart?_eq_some_iff.mp starts
  have parts := Text.eq_append_of_splitAtFence? fenced
  subst whole parts
  simp [source]

/-- The comments of a text. -/
def recogniser : Recogniser Comment where
  recognise? := recognise?
  source := source
  source_ne_nil := by
    intro comment
    simp [source, fence]
  eq_source_append := eq_source_append

end Comment

/-- A text without its hidden comments. -/
def stripComments (text : Text) : Text :=
  Comment.recogniser.replace (fun _ => []) text

end NotePublisher
