import NotePublisher.Document.Rewriting
import NotePublisher.Vault.Session

namespace NotePublisher

/-!
# Reading and storing documents

A document is stored by writing a temporary file beside its destination and
giving that file the destination's name, so a write that fails leaves the old
file in place. Whatever step is refused, the temporary file is removed. The
stored file has the permission bits of the source. A document that is stored as
another file than it was read from takes no other file's place; its source is
removed afterwards, and so are the folders this leaves empty, up to the root of
the vault.
-/

namespace Vault

/-- The text of a document. -/
def readDocument
    (root : Text)
    (document : DocumentPath) :
    VaultAction Text := do
  let path := document.within root
  VaultAction.note (.reading path)
  VaultAction.query (.read path) (·.readText (Route.ofText path))

/-- Remove folders, the innermost first, up to the first that has entries. -/
def removeEmptyFolders (root : Text) : List DocumentPath → VaultAction Unit
  | [] => pure ()
  | folder :: above => fun session =>
      let route := Route.ofText (folder.within root)
      match session.disk.readFolder route with
      | .error _ => .ok () session
      | .ok inside =>
          if inside.isEmpty then
            match Disk.removeFolder route session.disk with
            | .ok _ changed =>
                removeEmptyFolders root above
                  { session with
                    disk := changed
                    events := session.events ++ [.folderRemoved folder] }
            | .error cause same =>
                .ok ()
                  { session with
                    disk := same
                    events := session.events ++ [.removalFailed folder cause] }
          else
            .ok () session

/-- Give the temporary file of a document its name, and remove the source of another name. -/
def placeDocument
    (fault : Option DiskError)
    (root : Text)
    (source output : DocumentPath) :
    VaultAction Unit := do
  let sourcePath := source.within root
  let targetPath := output.within root
  let giveName (replacement : Replacement) : VaultAction Unit :=
    VaultAction.onDisk (.write targetPath)
      (Disk.orDiscard (Disk.unlessRefused fault
        (Disk.commitStaged (Route.ofText targetPath) replacement)))
  if source.sameComponents output then
    giveName .allowed
    VaultAction.note (.rewrote source)
  else
    giveName .never
    VaultAction.onDisk (.write sourcePath) (Disk.removeFile (Route.ofText sourcePath))
    removeEmptyFolders root source.enclosingFolders
    VaultAction.note (.renamed source output)

/--
Store a text as `output`, in the place of `source` or instead of it, on a
device that refuses some of the steps.
-/
def persistDocumentUnder
    (faults : StoreFaults)
    (root : Text)
    (source output : DocumentPath)
    (content : Text) :
    VaultAction Unit := do
  let targetPath := output.within root
  let folder := (Route.ofText targetPath).parent
  let onTarget (action : DiskAction Unit) : VaultAction Unit :=
    VaultAction.onDisk (.write targetPath) action
  onTarget (Disk.makeFoldersUnder faults.makingFolders folder)
  onTarget (Disk.stageFile faults folder (Utf8.encode content))
  let disk ← VaultAction.disk
  match disk.mode? (Route.ofText (source.within root)) with
  | some mode =>
      onTarget (Disk.orDiscard (Disk.unlessRefused faults.settingMode (Disk.setStagedMode mode)))
  | none => pure ()
  placeDocument faults.naming root source output

/-- Store a text as `output`, in the place of `source` or instead of it. -/
def persistDocument
    (root : Text)
    (source output : DocumentPath)
    (content : Text) :
    VaultAction Unit :=
  persistDocumentUnder {} root source output content

/-- The event that notes what became of a link. -/
def eventOfLink (record : LinkRecord) : Event :=
  match record.outcome with
  | .resolved document url => .linkResolved record.raw document url
  | .unresolved => .linkUnresolved record.raw

/-- A document as it is to be stored; nothing is written. -/
def prepareDocument
    (root : Text)
    (context : RewriteContext)
    (document : DocumentPath) :
    VaultAction RewrittenDocument := do
  let text ← readDocument root document
  let rewritten := RewrittenDocument.ofText context document text
  VaultAction.noteAll (rewritten.links.map eventOfLink)
  VaultAction.noteAll
    (rewritten.unresolvedLinks.map fun record => .unresolvedLink document record.raw)
  pure rewritten

/-- Rewrite a document and store it under its published path. -/
def rewriteDocument
    (root : Text)
    (context : RewriteContext)
    (document : DocumentPath) :
    VaultAction RewrittenDocument := do
  let rewritten ← prepareDocument root context document
  persistDocument root rewritten.source rewritten.output rewritten.text
  pure rewritten

end Vault

end NotePublisher
