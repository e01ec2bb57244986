namespace NotePublisher

/-!
# Texts

A text is a list of characters. Lengths and positions are counted in bytes of
its UTF-8 form, which is what a reader of a file on disk sees; the characters
themselves are what every rule of this library looks at.
-/

/-- A text, character by character. -/
abbrev Text := List Char

namespace Text

/-- The characters of a string. -/
def ofString (string : String) : Text :=
  string.toList

/-- The string with the given characters. -/
def toString (text : Text) : String :=
  String.ofList text

/-- The number of bytes of the UTF-8 form of a text. -/
def byteLength : Text → Nat
  | [] => 0
  | char :: rest => char.utf8Size + byteLength rest

@[simp] theorem byteLength_nil :
    byteLength [] = 0 :=
  rfl

@[simp] theorem byteLength_cons
    (char : Char)
    (text : Text) :
    byteLength (char :: text) = char.utf8Size + byteLength text :=
  rfl

@[simp] theorem byteLength_append
    (left right : Text) :
    byteLength (left ++ right) = byteLength left + byteLength right := by
  induction left with
  | nil =>
      simp
  | cons char rest inductionHypothesis =>
      simp [inductionHypothesis, Nat.add_assoc]

/-- Only the empty text has no bytes. -/
theorem byteLength_eq_zero_iff
    {text : Text} :
    byteLength text = 0 ↔ text = [] := by
  cases text with
  | nil =>
      simp
  | cons char rest =>
      have positive := char.utf8Size_pos
      simp only [byteLength_cons, reduceCtorEq, iff_false]
      omega

/-- Whether a character breaks a line: a line feed or a carriage return. -/
def isLineBreak (char : Char) : Bool :=
  char = '\n' || char = '\r'

/-- The part of a text after a leading `start`, if the text starts with it. -/
def dropStart? :
    (start text : Text) →
    Option Text
  | [], text => some text
  | _ :: _, [] => none
  | char :: start, first :: others =>
      if char = first then dropStart? start others else none

/-- What `dropStart?` cuts off and leaves makes up the text. -/
theorem dropStart?_eq_some_iff
    {start text rest : Text} :
    dropStart? start text = some rest ↔ text = start ++ rest := by
  induction start generalizing text with
  | nil =>
      simp [dropStart?]
  | cons char start inductionHypothesis =>
      cases text with
      | nil =>
          simp [dropStart?]
      | cons first others =>
          by_cases same : char = first
          · subst same
            simpa [dropStart?] using inductionHypothesis
          · simp [dropStart?, same, Ne.symm same]

/-- The part of a text before a final `ending`, if the text ends with it. -/
def dropEnd?
    (ending text : Text) :
    Option Text :=
  (dropStart? ending.reverse text.reverse).map List.reverse

/-- What `dropEnd?` cuts off and leaves makes up the text. -/
theorem dropEnd?_eq_some_iff
    {ending text rest : Text} :
    dropEnd? ending text = some rest ↔ text = rest ++ ending := by
  simp only [dropEnd?, Option.map_eq_some_iff, dropStart?_eq_some_iff]
  constructor
  · rintro ⟨reversed, equation, rfl⟩
    simpa using congrArg List.reverse equation
  · rintro rfl
    exact ⟨rest.reverse, by simp, by simp⟩

/-- A text without its final run of one character. -/
def trimEnd
    (char : Char)
    (text : Text) :
    Text :=
  (text.reverse.dropWhile (· == char)).reverse

/-- The piece of a text after its last slash, or the whole text without one. -/
def lastSegment (text : Text) : Text :=
  (text.splitOn '/').getLastD []

end Text

end NotePublisher
