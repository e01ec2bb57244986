import NotePublisher.Document.Path
import NotePublisher.Vault.Error

namespace NotePublisher

/-!
# Events of a run

What happens while a vault is published is noted as events, each of which has
a level and a message.
-/

/-- How important an event is, the most important first. -/
inductive LogLevel where
  | error
  | warning
  | information
  | debugging
  | tracing
  deriving DecidableEq, Repr

namespace LogLevel

/-- The place of a level, counted from the most important. -/
def rank : LogLevel → Nat
  | error => 0
  | warning => 1
  | information => 2
  | debugging => 3
  | tracing => 4

/-- Whether events of a level are shown when events up to a limit are asked for. -/
def isWithin (level limit : LogLevel) : Bool :=
  level.rank ≤ limit.rank

end LogLevel

/-- Something that happens while a vault is published. -/
inductive Event where
  | vaultChosen (root : Text)
  | publishing (count : Nat) (root : Text)
  | finished (published skipped failed unresolved : Nat)
  | unresolvedLink (document : DocumentPath) (raw : Text)
  | publishFailed (document : DocumentPath) (error : VaultError)
  | nameSkipped (path : Text)
  | removalFailed (folder : DocumentPath) (cause : DiskError)
  | linkResolved (raw : Text) (document : DocumentPath) (url : Text)
  | linkUnresolved (raw : Text)
  | linkedFolderSkipped (folder : DocumentPath)
  | folderExcluded (folder : DocumentPath)
  | indexed (count : Nat) (root : Text)
  | reading (path : Text)
  | skipping (document : DocumentPath)
  | renamed (source output : DocumentPath)
  | rewrote (document : DocumentPath)
  | folderRemoved (folder : DocumentPath)
  deriving DecidableEq, Repr

namespace Event

/-- How important an event is. -/
def level : Event → LogLevel
  | vaultChosen _ => .information
  | publishing _ _ => .information
  | finished _ _ _ _ => .information
  | unresolvedLink _ _ => .warning
  | publishFailed _ _ => .warning
  | nameSkipped _ => .warning
  | removalFailed _ _ => .warning
  | linkResolved _ _ _ => .debugging
  | linkUnresolved _ => .debugging
  | linkedFolderSkipped _ => .debugging
  | folderExcluded _ => .debugging
  | indexed _ _ => .debugging
  | reading _ => .debugging
  | skipping _ => .debugging
  | renamed _ _ => .debugging
  | rewrote _ => .debugging
  | folderRemoved _ => .debugging

/-- The message of an event. -/
def message : Event → String
  | vaultChosen root =>
      "Vault: " ++ root.toString
  | publishing count root =>
      "Publishing " ++ toString count ++ " files from " ++ root.toString
  | finished published skipped failed unresolved =>
      "Published " ++ toString published ++ " documents (" ++ toString skipped ++
        " skipped, " ++ toString failed ++ " failed, " ++ toString unresolved ++
        " unresolved links)"
  | unresolvedLink document raw =>
      document.text.toString ++ ": unresolved link " ++ raw.toString
  | publishFailed document error =>
      "Failed to publish " ++ document.text.toString ++ ": " ++ error.message
  | nameSkipped path =>
      "Skipping non UTF-8 path " ++ path.toString
  | removalFailed folder cause =>
      "Failed to remove empty folder " ++ folder.text.toString ++ ": " ++ cause.message
  | linkResolved raw document url =>
      raw.toString ++ " -> " ++ document.text.toString ++ " (" ++ url.toString ++ ")"
  | linkUnresolved raw =>
      raw.toString ++ " -> unresolved"
  | linkedFolderSkipped folder =>
      "Not following directory symlink " ++ folder.text.toString
  | folderExcluded folder =>
      "Excluding directory " ++ folder.text.toString
  | indexed count root =>
      "Indexed " ++ toString count ++ " files under " ++ root.toString
  | reading path =>
      "Reading " ++ path.toString
  | skipping document =>
      "Skipping " ++ document.text.toString
  | renamed source output =>
      "Renamed " ++ source.text.toString ++ " to " ++ output.text.toString
  | rewrote document =>
      "Rewrote " ++ document.text.toString
  | folderRemoved folder =>
      "Removed empty folder " ++ folder.text.toString

end Event

end NotePublisher
