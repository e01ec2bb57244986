import NotePublisher.Toml.Literal
import NotePublisher.Toml.Quoted

namespace NotePublisher

/-!
# TOML documents

A document is a sequence of statements, each on a line of its own: a key with
its value, or the header of a table. Arrays and inline tables may spread over
lines and hold comments. `Document.parse` reads a whole document into the
table it stands for.
-/

namespace Toml

/-- How deep arrays and inline tables may be nested. -/
def maximalDepth : Nat :=
  80

/--
A text without the blanks, line breaks and comments at its front; `inComment`
says whether it begins within a comment.
-/
def skipSpace?
    (inComment : Bool) :
    Text →
    Option Text
  | [] => some []
  | char :: rest =>
      if startsWithBreak (char :: rest) then
        skipSpace? false rest
      else if inComment then
        if isPrintable char then skipSpace? true rest else none
      else if isBlank char then
        skipSpace? false rest
      else if char = '#' then
        skipSpace? true rest
      else
        some (char :: rest)

/--
What follows the end of a line, before which only blanks and a comment may
stand; `inComment` says whether the text begins within the comment.
-/
def afterLine?
    (inComment : Bool) :
    Text →
    Option Text
  | [] => some []
  | '\n' :: rest => some rest
  | '\r' :: '\n' :: rest => some rest
  | char :: rest =>
      if inComment then
        if isPrintable char then afterLine? true rest else none
      else if isBlank char then
        afterLine? false rest
      else if char = '#' then
        afterLine? true rest
      else
        none

/-- A dotted key: the keys before its last dot and the key after it. -/
structure KeyPath where
  above : List Text
  key : Text
  deriving DecidableEq, Repr

/-- Whether a character may stand in a key without quotes. -/
def isKeyChar (char : Char) : Bool :=
  char.isAlphanum || char = '_' || char = '-'

/-- The key at the front of a text, and what follows it. -/
def readKey? (text : Text) : Option (Text × Text) :=
  match text.takeWhile isKeyChar with
  | [] => lineQuoted? text
  | bare => some (bare, text.dropWhile isKeyChar)

/-- The dotted key at the front of a text, and what follows it; at most `count` keys are read. -/
def readKeyPath? :
    (count : Nat) →
    Text →
    Option (KeyPath × Text)
  | 0, _ => none
  | count + 1, text =>
      match readKey? (text.dropWhile isBlank) with
      | none => none
      | some (key, rest) =>
          match rest.dropWhile isBlank with
          | '.' :: others =>
              (readKeyPath? count others).map fun (path, after) =>
                ({ path with above := key :: path.above }, after)
          | after => some (⟨[], key⟩, after)

/-- Whether a character may stand in a literal. -/
def isLiteralChar (char : Char) : Bool :=
  char.isAlphanum || char = '_' || char = '-' || char = '+' || char = '.' || char = ':'

/--
The literal at the front of a text, and what follows it. A date and a time may
be separated by a space.
-/
def splitLiteral (text : Text) : Text × Text :=
  let first := text.takeWhile isLiteralChar
  match text.dropWhile isLiteralChar with
  | ' ' :: digit :: rest =>
      if afterDate? first = some [] && digit.isDigit then
        (first ++ ' ' :: (digit :: rest).takeWhile isLiteralChar,
          (digit :: rest).dropWhile isLiteralChar)
      else
        (first, ' ' :: digit :: rest)
  | rest => (first, rest)

/-- The value without parts at the front of a text, and what follows it. -/
def readScalar? (text : Text) : Option (Node × Text) :=
  match text with
  | '"' :: _ => (quoted? text).map fun (content, rest) => (.text content, rest)
  | '\'' :: _ => (quoted? text).map fun (content, rest) => (.text content, rest)
  | _ =>
      let (literal, rest) := splitLiteral text
      (literal? literal).map fun node => (node, rest)

/--
The items of an array up to its closing bracket, and what follows it. `read?`
reads an item; at most `count` items are read.
-/
def readItems?
    (read? : Text → Option (Node × Text)) :
    (count : Nat) →
    Text →
    Option (List Node × Text)
  | 0, _ => none
  | count + 1, text => do
      let text ← skipSpace? false text
      match text with
      | ']' :: rest => some ([], rest)
      | _ =>
          let (item, rest) ← read? text
          let rest ← skipSpace? false rest
          match rest with
          | ']' :: rest => some ([item], rest)
          | ',' :: rest =>
              let (items, after) ← readItems? read? count rest
              some (item :: items, after)
          | _ => none

/-- A key with its value at the front of a text, and what follows them. -/
def readAssignment?
    (read? : Text → Option (Node × Text))
    (text : Text) :
    Option (KeyPath × Node × Text) := do
  let (path, rest) ← readKeyPath? (text.length + 1) text
  let rest ← Text.dropStart? ['='] rest
  let (node, rest) ← read? (rest.dropWhile isBlank)
  some (path, node, rest)

/--
The keys and values of an inline table up to its closing brace, added to a
table, and what follows the brace. `read?` reads a value; at most `count`
keys are read.
-/
def readFields?
    (read? : Text → Option (Node × Text)) :
    (count : Nat) →
    Table →
    Text →
    Option (Table × Text)
  | 0, _, _ => none
  | count + 1, table, text => do
      let text ← skipSpace? false text
      match text with
      | '\x7d' :: rest => some (table, rest)
      | _ =>
          let (path, node, rest) ← readAssignment? read? text
          let table ← table.assign? path.above path.key node
          let rest ← skipSpace? false rest
          match rest with
          | '\x7d' :: rest => some (table, rest)
          | ',' :: rest => readFields? read? count table rest
          | _ => none

/--
The value at the front of a text, and what follows it. `depth` is how deep
arrays and inline tables may still be nested.
-/
def readNode? :
    (depth : Nat) →
    Text →
    Option (Node × Text)
  | 0, text =>
      match text with
      | '[' :: _ => none
      | '\x7b' :: _ => none
      | _ => readScalar? text
  | depth + 1, text =>
      match text with
      | '[' :: rest =>
          (readItems? (readNode? depth) text.length rest).map fun (items, after) =>
            (.array items, after)
      | '\x7b' :: rest =>
          (readFields? (readNode? depth) text.length (.empty .inline) rest).map
            fun (table, after) => (.table table, after)
      | _ => readScalar? text

/-- A statement of a document. -/
inductive Statement where
  /-- A key with its value. -/
  | assign (path : KeyPath) (node : Node)
  /-- The header of a table. -/
  | openTable (path : KeyPath)
  /-- The header of one of several tables with the same header. -/
  | openElement (path : KeyPath)

namespace Statement

/-- The statement at the front of a text, and what follows its line. -/
def read? (text : Text) : Option (Statement × Text) :=
  match text with
  | '[' :: '[' :: inside => do
      let (path, rest) ← readKeyPath? (text.length + 1) inside
      let rest ← Text.dropStart? [']', ']'] rest
      let after ← afterLine? false rest
      some (openElement path, after)
  | '[' :: inside => do
      let (path, rest) ← readKeyPath? (text.length + 1) inside
      let rest ← Text.dropStart? [']'] rest
      let after ← afterLine? false rest
      some (openTable path, after)
  | _ => do
      let (path, node, rest) ← readAssignment? (readNode? maximalDepth) text
      let after ← afterLine? false rest
      some (assign path node, after)

/-- The statements of a text; at most `count` are read. -/
def readAll? :
    (count : Nat) →
    Text →
    Option (List Statement)
  | 0, _ => none
  | count + 1, text => do
      let text ← skipSpace? false text
      if text.isEmpty then
        some []
      else
        let (statement, rest) ← read? text
        let others ← readAll? count rest
        some (statement :: others)

end Statement

/-- A document read so far, and the keys of the table that its next keys belong to. -/
structure Document where
  table : Table
  current : List Text

namespace Document

/-- The document before its first statement. -/
def start : Document where
  table := .empty .opened
  current := []

/-- The document after one more statement. -/
def add?
    (document : Document)
    (statement : Statement) :
    Option Document :=
  match statement with
  | .assign path node =>
      (document.table.updateAt? false (·.assign? path.above path.key node)
        document.current).map fun table => { document with table := table }
  | .openTable path =>
      (document.table.openTable? path.above path.key).map fun table =>
        ⟨table, path.above ++ [path.key]⟩
  | .openElement path =>
      (document.table.openElement? path.above path.key).map fun table =>
        ⟨table, path.above ++ [path.key]⟩

/-- The mark that may stand in front of a document. -/
def byteOrderMark : Char :=
  '\uFEFF'

/-- The table that a document stands for. -/
def parse? (text : Text) : Option Table := do
  let text := if text.head? = some byteOrderMark then text.tail else text
  let statements ← Statement.readAll? (text.length + 1) text
  let document ← statements.foldlM add? start
  some document.table

end Document

end Toml

end NotePublisher
