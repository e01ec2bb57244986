import NotePublisher.Text.Scanner
import NotePublisher.Text.Span

namespace NotePublisher

/-!
# Wiki links

A wiki link is written `[[target]]` or `[[target|label]]`, on one line. Its
body ends at the first `]]`, its target at the first `|` of the body, and a
third closing bracket directly behind it belongs to the link. Target and label
may be empty. Two opening brackets that no `]]` follows on the same line are
plain text. `WikiLink.recogniser` says which texts are links; a document is read
byte by byte (`InlineNode.parse`), and the links found in it are those
(`InlineNode.parse_eq_ofPieces`).

`LinkText` is what is shown and recorded of a link: its source, its target and
its label as texts.
-/

/-- A wiki link. -/
structure WikiLink where
  /-- What the link points at. -/
  target : Text
  /-- The text after the first bar, if there is a bar. -/
  label : Option Text
  /-- Whether a third closing bracket belongs to the link. -/
  stray : Bool
  deriving DecidableEq, Repr

namespace WikiLink

/-- The two brackets that open a link. -/
def opening : Text :=
  ['[', '[']

/-- The two brackets that close a link. -/
def closing : Text :=
  [']', ']']

/-- The text between a link's brackets. -/
def body (link : WikiLink) : Text :=
  match link.label with
  | none => link.target
  | some label => link.target ++ '|' :: label

/-- The third closing bracket, for a link that has one. -/
def strayText (link : WikiLink) : Text :=
  if link.stray then [']'] else []

/-- The text a link is written as. -/
def source (link : WikiLink) : Text :=
  opening ++ link.body ++ closing ++ link.strayText

/-- The target of a link's body: what stands before the first bar. -/
def targetOfBody (body : Text) : Text :=
  body.takeWhile (· != '|')

/-- The label of a link's body: what stands after the first bar. -/
def labelOfBody (body : Text) : Option Text :=
  match body.dropWhile (· != '|') with
  | [] => none
  | _ :: label => some label

/-- The link with the given body. -/
def ofBody
    (body : Text)
    (stray : Bool) :
    WikiLink where
  target := targetOfBody body
  label := labelOfBody body
  stray := stray

/-- The target, the first bar and the label make up the body. -/
theorem body_ofBody
    (body : Text)
    (stray : Bool) :
    (ofBody body stray).body = body := by
  have whole := List.takeWhile_append_dropWhile (p := (· != '|')) (l := body)
  simp only [WikiLink.body, ofBody, labelOfBody, targetOfBody]
  cases remaining : body.dropWhile (· != '|') with
  | nil =>
      rw [remaining, List.append_nil] at whole
      exact whole
  | cons bar label =>
      have isBar : bar = '|' := by
        have nonempty : body.dropWhile (· != '|') ≠ [] := by simp [remaining]
        have stopped := List.head_dropWhile_not (· != '|') nonempty
        simpa [remaining] using stopped
      rw [remaining, isBar] at whole
      exact whole

/-- The link at the front of a text, and what follows it. -/
def recognise? (text : Text) : Option (WikiLink × Text) :=
  (Text.dropStart? opening text).bind fun inside =>
    (Text.splitAtFence? closing Text.isLineBreak inside).map fun (body, after) =>
      match after with
      | ']' :: rest => (ofBody body true, rest)
      | rest => (ofBody body false, rest)

/-- A recognised link and what follows it make up the text. -/
theorem eq_source_append
    {text rest : Text}
    {link : WikiLink}
    (found : recognise? text = some (link, rest)) :
    text = link.source ++ rest := by
  simp only [recognise?, Option.bind_eq_some_iff, Option.map_eq_some_iff] at found
  obtain ⟨inside, starts, ⟨body, after⟩, fenced, link_eq⟩ := found
  have whole := Text.dropStart?_eq_some_iff.mp starts
  have parts := Text.eq_append_of_splitAtFence? fenced
  subst whole parts
  split at link_eq
  · next tail third =>
      obtain ⟨rfl, rfl⟩ := Prod.mk.inj link_eq
      have third : after = ']' :: tail := third
      simp only [source, body_ofBody, strayText, third]
      simp [ofBody]
  · obtain ⟨rfl, rfl⟩ := Prod.mk.inj link_eq
    simp only [source, body_ofBody, strayText]
    simp [ofBody]

/-- The links of a text. -/
def recogniser : Recogniser WikiLink where
  recognise? := recognise?
  source := source
  source_ne_nil := by
    intro link
    simp [source, opening]
  eq_source_append := eq_source_append

end WikiLink

/-- A link as texts: its source, its target and its label. -/
structure LinkText where
  raw : Text
  target : Text
  label : Option Text
  deriving DecidableEq, Repr

namespace LinkText

/-- The texts of a link. -/
def ofLink (link : WikiLink) : LinkText where
  raw := link.source
  target := link.target
  label := link.label

/-- The texts covered by the spans of a link. -/
def ofSpans?
    (source : Text)
    (full target : Span)
    (label : Option Span) :
    Option LinkText :=
  (full.slice? source).bind fun rawText =>
    (target.slice? source).bind fun targetText =>
      match label with
      | none => some ⟨rawText, targetText, none⟩
      | some span =>
          (span.slice? source).map fun labelText =>
            ⟨rawText, targetText, some labelText⟩

/-- What a reader sees of a link: its label, or else the last segment of its target. -/
def display (link : LinkText) : Text :=
  link.label.getD (Text.lastSegment link.target)

end LinkText

end NotePublisher
