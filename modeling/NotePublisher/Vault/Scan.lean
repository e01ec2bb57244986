import NotePublisher.Document.Index
import NotePublisher.Vault.Session

namespace NotePublisher

/-!
# Scanning a vault

A vault's files are found by walking its folders in the order of their
entries. Folders whose name a pattern accepts are left out with everything in
them, names that are no text are passed over, and links to folders are not
followed. Everything else that is not a folder is a file of the vault.
-/

/-- A file found by a scan, or something noted on the way. -/
inductive Finding where
  | file (path : DocumentPath)
  | noted (event : Event)
  deriving DecidableEq, Repr

namespace Finding

/-- The file found. -/
def file? : Finding → Option DocumentPath
  | file path => some path
  | noted _ => none

/-- The event noted. -/
def event? : Finding → Option Event
  | file _ => none
  | noted event => some event

end Finding

/-- The patterns that texts stand for; the first malformed one is reported. -/
def compileExcludes : List Text → Except VaultError (List NamePattern)
  | [] => .ok []
  | source :: others =>
      match NamePattern.parse source with
      | .error cause => .error (.invalidPattern source cause)
      | .ok pattern => (compileExcludes others).map (pattern :: ·)

namespace Vault

/-- Where a scan is: a folder's path on the disk and its path below the root. -/
structure Place where
  path : Text
  relative : DocumentPath
  deriving DecidableEq, Repr

namespace Place

/-- The path of something in a folder of the disk. -/
def pathOf
    (place : Place)
    (name : Text) :
    Text :=
  if place.path.isEmpty || place.path.getLast? = some '/' then
    place.path ++ name
  else
    place.path ++ '/' :: name

/-- The path below the root of something in a folder. -/
def relativeOf
    (place : Place)
    (name : Text) :
    DocumentPath where
  text :=
    if place.relative.text.isEmpty then name else place.relative.text ++ '/' :: name

/-- The place of a folder within a folder. -/
def within
    (place : Place)
    (name : Text) :
    Place where
  path := place.pathOf name
  relative := place.relativeOf name

end Place

/-- What a scan finds in a folder. -/
def scan
    (disk : Disk)
    (excludes : List NamePattern) :
    Place →
    Folder →
    List Finding
  | _, .empty => []
  | place, .leaf name content others =>
      let found : Finding :=
        match Utf8.decode? name with
        | none => .noted (.nameSkipped (place.pathOf (Utf8.decodeLossy name)))
        | some text =>
            match content with
            | .file _ => .file (place.relativeOf text)
            | .link _ =>
                if disk.isFolder (Route.ofText (place.pathOf text)) then
                  .noted (.linkedFolderSkipped (place.relativeOf text))
                else
                  .file (place.relativeOf text)
      found :: scan disk excludes place others
  | place, .folder name children others =>
      let found : List Finding :=
        match Utf8.decode? name with
        | none => [.noted (.nameSkipped (place.pathOf (Utf8.decodeLossy name)))]
        | some text =>
            if excludes.any (·.accepts text) then
              [.noted (.folderExcluded (place.relativeOf text))]
            else
              scan disk excludes (place.within text) children
      found ++ scan disk excludes place others

/-- Refuse a root that is not a folder. -/
def validateRoot (root : Text) : VaultAction Unit := do
  let disk ← VaultAction.disk
  if disk.isFolder (Route.ofText root) then
    pure ()
  else
    throw (.rootNotFound root)

/-- The index of a vault. -/
def buildIndex
    (root : Text)
    (excludes : List NamePattern) :
    VaultAction DocumentIndex := do
  validateRoot root
  let folder ← VaultAction.query .enumerate (·.readFolder (Route.ofText root))
  let disk ← VaultAction.disk
  let findings := scan disk excludes ⟨root, ⟨[]⟩⟩ folder
  let files := findings.filterMap Finding.file?
  VaultAction.noteAll (findings.filterMap Finding.event?)
  VaultAction.note (.indexed files.length root)
  pure (DocumentIndex.ofPaths files)

end Vault

end NotePublisher
