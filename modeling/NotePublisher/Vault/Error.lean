import NotePublisher.Disk.Error
import NotePublisher.Document.NamePattern

namespace NotePublisher

/-!
# Errors of a vault

Why an operation on a vault failed, the message that says so, and the messages
of the causes behind it.
-/

/-- Why an operation on a vault failed. -/
inductive VaultError where
  /-- The root of the vault is not a folder. -/
  | rootNotFound (root : Text)
  /-- A file could not be read as a text. -/
  | read (path : Text) (cause : DiskError)
  /-- A file could not be stored. -/
  | write (path : Text) (cause : DiskError)
  /-- A pattern of folder names is malformed. -/
  | invalidPattern (pattern : Text) (cause : PatternError)
  /-- The files of the vault could not be listed. -/
  | enumerate (cause : DiskError)
  deriving DecidableEq, Repr

namespace VaultError

/-- The message of an error. -/
def message : VaultError → String
  | rootNotFound root =>
      "Vault directory not found: " ++ root.toString
  | read path cause =>
      "Failed to read " ++ path.toString ++ ": " ++ cause.message
  | write path cause =>
      "Failed to write " ++ path.toString ++ ": " ++ cause.message
  | invalidPattern pattern cause =>
      "Invalid exclude pattern '" ++ pattern.toString ++ "': " ++ cause.message
  | enumerate cause =>
      "IO error: " ++ cause.message

/-- The messages of the causes behind an error. -/
def causes : VaultError → List String
  | rootNotFound _ => []
  | read _ cause => [cause.message]
  | write _ cause => [cause.message]
  | invalidPattern _ cause => [cause.message]
  | enumerate cause => [cause.message]

end VaultError

end NotePublisher
