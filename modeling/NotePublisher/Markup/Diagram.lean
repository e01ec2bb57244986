import NotePublisher.Text.Scanner

namespace NotePublisher

/-!
# Diagrams

A diagram stands in a fence that opens with three backticks and the word
`mermaid` and closes with the next three backticks, over any number of lines.
`embedDiagrams` puts in its place a script tag and a division that holds the
diagram's body unchanged. An opener that nothing closes is plain text.
-/

/-- A fenced diagram. -/
structure Diagram where
  /-- The text between the opening and the closing fence. -/
  body : Text
  deriving DecidableEq, Repr

namespace Diagram

/-- The character that fences are made of. -/
def backtick : Char :=
  Char.ofNat 96

/-- The three backticks that close a diagram. -/
def closing : Text :=
  [backtick, backtick, backtick]

/-- The fence that opens a diagram. -/
def opening : Text :=
  closing ++ ['m', 'e', 'r', 'm', 'a', 'i', 'd']

/-- The text a diagram is written as. -/
def source (diagram : Diagram) : Text :=
  opening ++ diagram.body ++ closing

/-- The diagram at the front of a text, and what follows it. -/
def recognise? (text : Text) : Option (Diagram × Text) :=
  (Text.dropStart? opening text).bind fun inside =>
    (Text.splitAtFence? closing (fun _ => false) inside).map fun (body, rest) =>
      (⟨body⟩, rest)

/-- A recognised diagram and what follows it make up the text. -/
theorem eq_source_append
    {text rest : Text}
    {diagram : Diagram}
    (found : recognise? text = some (diagram, rest)) :
    text = diagram.source ++ rest := by
  simp only [recognise?, Option.bind_eq_some_iff, Option.map_eq_some_iff,
    Prod.mk.injEq] at found
  obtain ⟨inside, starts, ⟨body, after⟩, fenced, rfl, rfl⟩ := found
  have whole := Text.dropStart?_eq_some_iff.mp starts
  have parts := Text.eq_append_of_splitAtFence? fenced
  subst whole parts
  simp [source]

/-- The diagrams of a text. -/
def recogniser : Recogniser Diagram where
  recognise? := recognise?
  source := source
  source_ne_nil := by
    intro diagram
    simp [source, opening]
  eq_source_append := eq_source_append

/-- The script tag that loads the renderer of diagrams. -/
def scriptTag (scriptSource : Text) : Text :=
  "<script src='".toList ++ scriptSource ++ "'></script>".toList

/-- The division a page shows a diagram in. -/
def division (diagram : Diagram) : Text :=
  "<div class=mermaid>".toList ++ diagram.body ++ "</div>".toList

/-- What a page holds in place of a fenced diagram. -/
def embedding
    (scriptSource : Text)
    (diagram : Diagram) :
    Text :=
  scriptTag scriptSource ++ diagram.division

/-- Where the renderer of diagrams is loaded from unless said otherwise. -/
def defaultScriptSource : Text :=
  "https://cdn.jsdelivr.net/npm/mermaid/dist/mermaid.min.js".toList

end Diagram

/-- A text with its fenced diagrams made embeddable. -/
def embedDiagrams
    (scriptSource text : Text) :
    Text :=
  Diagram.recogniser.replace (Diagram.embedding scriptSource) text

end NotePublisher
