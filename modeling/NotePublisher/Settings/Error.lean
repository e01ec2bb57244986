import NotePublisher.Disk.Error
import NotePublisher.Text.Basic

namespace NotePublisher

/-!
# Errors of the settings file

Why a settings file that exists could not be used.
-/

/-- Why a settings file could not be used. -/
inductive SettingsError where
  | unreadable (path : Text) (cause : DiskError)
  | malformed (path : Text)
  deriving DecidableEq, Repr

namespace SettingsError

/-- What is wrong with a malformed file. -/
def malformedMessage : String :=
  "TOML parse error"

/-- The message of the cause behind an error. -/
def cause : SettingsError → String
  | unreadable _ cause => cause.message
  | malformed _ => malformedMessage

/-- The message of an error. -/
def message : SettingsError → String
  | unreadable path cause =>
      "Failed to read config file at " ++ path.toString ++ ": " ++ cause.message
  | malformed path =>
      "Failed to parse config file at " ++ path.toString ++ ": " ++ malformedMessage

end SettingsError

end NotePublisher
