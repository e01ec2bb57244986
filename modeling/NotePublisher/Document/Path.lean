import NotePublisher.Text.Utf8

namespace NotePublisher

/-!
# Document paths

A document is known by its path below the vault's root. The path is kept as it
is written. Its components are the pieces between slashes, without the empty
ones; two paths with the same components name the same file. Paths are ordered
by the bytes of what is written.

Published paths hold no colon: `DocumentPath.output` puts a blank and a dash
in the place of each, and `DocumentPath.url` does the same for the address of
a document.
-/

/-- The path of a document below the root of its vault. -/
structure DocumentPath where
  text : Text
  deriving DecidableEq, Repr

namespace DocumentPath

/-- The suffix of a markdown document. -/
def markdownSuffix : Text :=
  ['.', 'm', 'd']

/-- The extension of a markdown document. -/
def markdownExtension : Text :=
  ['m', 'd']

/-- The component that names the folder it stands in. -/
def currentFolder : Text :=
  ['.']

/-- The component that names the folder above. -/
def parentFolder : Text :=
  ['.', '.']

/-- The pieces of the path between slashes, without the empty ones. -/
def components (path : DocumentPath) : List Text :=
  (path.text.splitOn '/').filter fun piece => !piece.isEmpty

/-- Whether two paths name the same file. -/
def sameComponents (left right : DocumentPath) : Bool :=
  left.components = right.components

/-- Paths in the order of their bytes. -/
def order (left right : DocumentPath) : Ordering :=
  Text.order left.text right.text

/-- The last component, where a final `.` does not count and a final `..` names no file. -/
def fileName (path : DocumentPath) : Text :=
  match path.components.reverse.dropWhile (· == currentFolder) with
  | [] => []
  | name :: _ => if name = parentFolder then [] else name

/-- What follows the last dot of a file name, unless nothing stands before that dot. -/
def extensionOfName? (name : Text) : Option Text :=
  match (name.reverse.dropWhile (· != '.')) with
  | [] => none
  | [_] => none
  | _ :: _ :: _ => some (name.reverse.takeWhile (· != '.')).reverse

/-- Whether the document is markdown, by the extension of its file name. -/
def isMarkdown (path : DocumentPath) : Bool :=
  extensionOfName? path.fileName = some markdownExtension

/-- The path without the suffix of a markdown document, if it is written with one. -/
def stem? (path : DocumentPath) : Option Text :=
  Text.dropEnd? markdownSuffix path.text

/--
Whether a link's target names the document: by its whole path or by its last
segment, without the suffix of a markdown document.
-/
def matchesTarget
    (path : DocumentPath)
    (target : Text) :
    Bool :=
  match path.stem? with
  | none => false
  | some stem => stem = target || Text.lastSegment stem = target

/-- What stands for a character in published names. -/
def publishedChar (char : Char) : Text :=
  if char = ':' then [' ', '-'] else [char]

/-- A text with the characters that published names may hold. -/
def publishedText (text : Text) : Text :=
  text.flatMap publishedChar

/-- The path the published document is stored under. -/
def output (path : DocumentPath) : DocumentPath where
  text := publishedText path.text

/-- Whether the path holds a character that published names may not hold. -/
def isRenamed (path : DocumentPath) : Bool :=
  path.text.contains ':'

/-- The address of the published document below an address. -/
def url
    (path : DocumentPath)
    (base : Text) :
    Text :=
  Text.trimEnd '/' base ++ '/' :: publishedText (path.stem?.getD path.text)

/-- Components written below a folder. -/
def joinBelow
    (root : Text)
    (components : List Text) :
    Text :=
  components.foldl
    (fun path component =>
      if path.isEmpty then component else path ++ '/' :: component)
    root

/-- The path of the document's file for a vault at `root`. -/
def within
    (path : DocumentPath)
    (root : Text) :
    Text :=
  joinBelow root path.components

/--
The folders around a file, the innermost first, from the file's components in
reverse. Each folder is given by its own components in reverse.
-/
def foldersAbove :
    List Text →
    List (List Text)
  | [] => []
  | component :: above =>
      if component = currentFolder then
        foldersAbove above
      else if above.isEmpty then
        []
      else
        above :: foldersAbove above

/-- The folders below the root that the document lies in, the innermost first. -/
def enclosingFolders (path : DocumentPath) : List DocumentPath :=
  (foldersAbove path.components.reverse).map fun folder =>
    ⟨['/'].intercalate folder.reverse⟩

end DocumentPath

end NotePublisher
