import NotePublisher.Text.Basic

namespace NotePublisher

/-!
# Name patterns

A name pattern says which folders are left out of a vault. Besides characters
that stand for themselves it may hold `?` for any character, `*` for any text,
`[…]` and `[!…]` for a character inside and outside a class, and `**` as a
whole component for any number of folders. `NamePattern.parse` reports where
and why a pattern is malformed; positions count characters.
-/

/-- The characters from `low` to `high`. -/
structure CharRange where
  low : Char
  high : Char
  deriving DecidableEq, Repr

namespace CharRange

/-- Whether a character lies in the range. -/
def contains
    (range : CharRange)
    (char : Char) :
    Bool :=
  range.low ≤ char && char ≤ range.high

end CharRange

/-- One element of a name pattern. -/
inductive PatternToken where
  | exactly (char : Char)
  | anyChar
  | oneOf (ranges : List CharRange)
  | noneOf (ranges : List CharRange)
  | anyText
  | anyFolders
  deriving DecidableEq, Repr

/-- Why a pattern is malformed. -/
inductive PatternFault where
  | tooManyStars
  | notWholeComponent
  | invalidRange
  deriving DecidableEq, Repr

namespace PatternFault

/-- The explanation shown for a malformed pattern. -/
def message : PatternFault → String
  | tooManyStars => "wildcards are either regular `*` or recursive `**`"
  | notWholeComponent => "recursive wildcards must form a single path component"
  | invalidRange => "invalid range pattern"

end PatternFault

/-- Where and why a pattern is malformed. -/
structure PatternError where
  position : Nat
  fault : PatternFault
  deriving DecidableEq, Repr

namespace PatternError

/-- The message shown for a malformed pattern. -/
def message (error : PatternError) : String :=
  "Pattern syntax error near position " ++ toString error.position ++ ": " ++
    error.fault.message

end PatternError

/-- A name pattern: what it is written as and its elements. -/
structure NamePattern where
  source : Text
  tokens : List PatternToken
  deriving DecidableEq, Repr

namespace NamePattern

/-- The ranges of a class. A dash between two characters makes a range of them. -/
def rangesOfClass : Text → List CharRange
  | low :: '-' :: high :: rest => ⟨low, high⟩ :: rangesOfClass rest
  | char :: rest => ⟨char, char⟩ :: rangesOfClass rest
  | [] => []

/--
The characters of a class that begins with `first`. The class ends before the
first closing bracket behind that character.
-/
def classOf?
    (first : Char)
    (rest : Text) :
    Option Text :=
  if rest.contains ']' then
    some (first :: rest.takeWhile (· != ']'))
  else
    none

/--
The element at the front of a pattern and the number of characters it is
written with. `position` is the place of that front in the whole pattern and
`previous` the character before it.
-/
def readToken
    (position : Nat)
    (previous : Option Char)
    (char : Char)
    (rest : Text) :
    Except PatternError (PatternToken × Nat) :=
  match char with
  | '?' => .ok (.anyChar, 1)
  | '*' =>
      let others := rest.dropWhile (· == '*')
      match (rest.takeWhile (· == '*')).length with
      | 0 => .ok (.anyText, 1)
      | 1 =>
          if position = 0 || previous = some '/' then
            match others with
            | [] => .ok (.anyFolders, 2)
            | '/' :: _ => .ok (.anyFolders, 3)
            | _ :: _ => .error ⟨position + 2, .notWholeComponent⟩
          else
            .error ⟨position - 1, .notWholeComponent⟩
      | _ + 2 => .error ⟨position + 2, .tooManyStars⟩
  | '[' =>
      match rest with
      | '!' :: first :: others =>
          match classOf? first others with
          | some inside => .ok (.noneOf (rangesOfClass inside), inside.length + 3)
          | none => .error ⟨position, .invalidRange⟩
      | first :: others =>
          match if first = '!' then none else classOf? first others with
          | some inside => .ok (.oneOf (rangesOfClass inside), inside.length + 2)
          | none => .error ⟨position, .invalidRange⟩
      | [] => .error ⟨position, .invalidRange⟩
  | _ => .ok (.exactly char, 1)

/-- The elements of a pattern whose first `taken` characters were read before. -/
def readTokensBehind :
    (taken position : Nat) →
    (previous : Option Char) →
    Text →
    Except PatternError (List PatternToken)
  | _, _, _, [] => .ok []
  | taken + 1, position, _, char :: rest =>
      readTokensBehind taken (position + 1) (some char) rest
  | 0, position, previous, char :: rest =>
      match readToken position previous char rest with
      | .error error => .error error
      | .ok (token, width) =>
          (readTokensBehind (width - 1) (position + 1) (some char) rest).map
            (token :: ·)

/-- The pattern written as a text. -/
def parse (source : Text) : Except PatternError NamePattern :=
  (readTokensBehind 0 0 none source).map fun tokens => ⟨source, tokens⟩

/-- The ends of a text, from the whole text to the empty one. -/
def endings : Text → List Text
  | [] => [[]]
  | char :: rest => (char :: rest) :: endings rest

/-- The ends of a text that stand behind a slash. -/
def endingsBehindSlash : Text → List Text
  | [] => []
  | char :: rest =>
      if char = '/' then
        rest :: endingsBehindSlash rest
      else
        endingsBehindSlash rest

/-- Whether an element that stands for one character accepts it. -/
def acceptsChar
    (token : PatternToken)
    (char : Char) :
    Bool :=
  match token with
  | .exactly expected => char = expected
  | .anyChar => true
  | .oneOf ranges => ranges.any (·.contains char)
  | .noneOf ranges => !ranges.any (·.contains char)
  | .anyText => false
  | .anyFolders => false

/--
Whether a whole text is made up as the elements say. Any text may stand for
`anyText`; `anyFolders` takes nothing, everything, or a part that ends in a
slash.
-/
def acceptsTokens :
    List PatternToken →
    Text →
    Bool
  | [], text => text.isEmpty
  | .anyText :: tokens, text =>
      (endings text).any (acceptsTokens tokens)
  | .anyFolders :: tokens, text =>
      (text :: endingsBehindSlash text ++ [[]]).any (acceptsTokens tokens)
  | _ :: _, [] => false
  | token :: tokens, char :: rest =>
      acceptsChar token char && acceptsTokens tokens rest

/-- Whether a name is made up as the pattern says. -/
def accepts
    (pattern : NamePattern)
    (name : Text) :
    Bool :=
  acceptsTokens pattern.tokens name

end NamePattern

end NotePublisher
