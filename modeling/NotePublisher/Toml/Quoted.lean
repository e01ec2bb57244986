import NotePublisher.Toml.Digits

namespace NotePublisher

/-!
# Quoted TOML texts

A text is written between double or single quotes, either on one line or,
between three quotes, over many lines. Between double quotes a backslash
stands for another character or, at the end of a line, for nothing together
with the blanks and line breaks behind it. A line break directly behind three
opening quotes does not count, and up to two quotes may stand directly before
three closing ones.
-/

namespace Toml

/-- Whether a character may stand in texts and comments: no control character but the tab. -/
def isPrintable (char : Char) : Bool :=
  char = '\t' || (' ' ≤ char && char ≠ '\x7f')

/-- Whether a character is a blank: a space or a tab. -/
def isBlank (char : Char) : Bool :=
  char = ' ' || char = '\t'

/-- One of the four ways to quote a text. -/
structure QuoteStyle where
  quote : Char
  /-- Whether a backslash stands for another character. -/
  escapes : Bool
  /-- Whether the text is written between three quotes. -/
  multiline : Bool
  deriving DecidableEq, Repr

/-- The character with a number, if there is one; surrogates are no characters. -/
def charOfNumber? (number : Nat) : Option Char :=
  if number.isValidChar then some (Char.ofNat number) else none

/-- The character that hexadecimal digits at the front of a text stand for. -/
def numberedChar?
    (count : Nat)
    (text : Text) :
    Option Char :=
  let digits := text.take count
  if digits.length = count && isDigits 16 digits then
    charOfNumber? (numberOfDigits 16 digits)
  else
    none

/-- How many characters at the front of a text are blanks and line breaks. -/
def countBlanksAndBreaks : Text → Nat
  | '\r' :: '\n' :: rest => countBlanksAndBreaks rest + 2
  | '\n' :: rest => countBlanksAndBreaks rest + 1
  | ' ' :: rest => countBlanksAndBreaks rest + 1
  | '\t' :: rest => countBlanksAndBreaks rest + 1
  | _ => 0

/-- Whether a text begins with a line break. -/
def startsWithBreak (text : Text) : Bool :=
  match text with
  | '\n' :: _ => true
  | '\r' :: '\n' :: _ => true
  | _ => false

/--
What a backslash before a text stands for, and how many characters of the text
belong to it.
-/
def escape?
    (multiline : Bool)
    (text : Text) :
    Option (Text × Nat) :=
  if multiline && startsWithBreak (text.dropWhile isBlank) then
    some ([], countBlanksAndBreaks text)
  else
    match text with
    | 'b' :: _ => some (['\x08'], 1)
    | 't' :: _ => some (['\t'], 1)
    | 'n' :: _ => some (['\n'], 1)
    | 'f' :: _ => some (['\x0c'], 1)
    | 'r' :: _ => some (['\r'], 1)
    | 'e' :: _ => some (['\x1b'], 1)
    | '"' :: _ => some (['"'], 1)
    | '\\' :: _ => some (['\\'], 1)
    | 'x' :: digits => (numberedChar? 2 digits).map fun char => ([char], 3)
    | 'u' :: digits => (numberedChar? 4 digits).map fun char => ([char], 5)
    | 'U' :: digits => (numberedChar? 8 digits).map fun char => ([char], 9)
    | _ => none

/-- A text read so far with more text in front. -/
def withFront
    (front : Text)
    (found : Option (Text × Text)) :
    Option (Text × Text) :=
  found.map fun (inside, after) => (front ++ inside, after)

/--
The rest of a quoted text whose first `taken` characters were dealt with
before, and what follows its closing quotes.
-/
def quotedBehind?
    (style : QuoteStyle) :
    Nat →
    Text →
    Option (Text × Text)
  | _, [] => none
  | taken + 1, _ :: rest =>
      quotedBehind? style taken rest
  | 0, char :: rest =>
      if char = style.quote then
        let further := (rest.takeWhile (· == style.quote)).length
        if !style.multiline then
          some ([], rest)
        else if further < 2 then
          withFront [char] (quotedBehind? style 0 rest)
        else
          let extra := min (further - 2) 2
          some (List.replicate extra style.quote, rest.drop (extra + 2))
      else if char = '\\' && style.escapes then
        match escape? style.multiline rest with
        | none => none
        | some (meant, width) => withFront meant (quotedBehind? style width rest)
      else if isPrintable char || (style.multiline && startsWithBreak (char :: rest)) then
        withFront [char] (quotedBehind? style 0 rest)
      else
        none

/-- A text without the line break it begins with. -/
def dropBreak (text : Text) : Text :=
  match text with
  | '\n' :: rest => rest
  | '\r' :: '\n' :: rest => rest
  | _ => text

/-- The text between single quotes or double quotes, on one line, and what follows it. -/
def lineQuoted? (text : Text) : Option (Text × Text) :=
  match text with
  | '"' :: rest => quotedBehind? ⟨'"', true, false⟩ 0 rest
  | '\'' :: rest => quotedBehind? ⟨'\'', false, false⟩ 0 rest
  | _ => none

/-- The text in quotes of any kind, and what follows it. -/
def quoted? (text : Text) : Option (Text × Text) :=
  match text with
  | '"' :: '"' :: '"' :: rest => quotedBehind? ⟨'"', true, true⟩ 0 (dropBreak rest)
  | '\'' :: '\'' :: '\'' :: rest => quotedBehind? ⟨'\'', false, true⟩ 0 (dropBreak rest)
  | _ => lineQuoted? text

end Toml

end NotePublisher
