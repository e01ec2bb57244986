import NotePublisher.Disk.Basic
import NotePublisher.Settings.Error
import NotePublisher.Settings.HomeFolder
import NotePublisher.Toml.Document

namespace NotePublisher

/-!
# Settings

The settings file is a TOML document that may name the vault, the address it
is published below, the folders to leave out and the source of the renderer
of diagrams. Keys that mean nothing are ignored. A tilde in front of the path
of the vault stands for the home folder of the user.
-/

/-- What the settings file says. -/
structure Settings where
  vaultPath : Option Text := none
  urlBase : Option Text := none
  excludes : List Text := []
  scriptSource : Option Text := none
  deriving DecidableEq, Repr

namespace Settings

/-- Where the settings file is when no other is named. -/
def defaultPath (home : Text) : Text :=
  HomeFolder.expand home (Text.ofString "~/.config/vault-press/config.toml")

/-- The text of a key; a value of another kind is refused. -/
def textOfKey?
    (table : Toml.Table)
    (key : String) :
    Option (Option Text) :=
  match table.find? (Text.ofString key) with
  | none => some none
  | some (.text content) => some (some content)
  | some _ => none

/-- The text of an array's item. -/
def textOfItem? (item : Toml.Node) : Option Text :=
  match item with
  | .text content => some content
  | _ => none

/-- The texts of a key, none if it is missing; a value of another kind is refused. -/
def textsOfKey?
    (table : Toml.Table)
    (key : String) :
    Option (List Text) :=
  match table.find? (Text.ofString key) with
  | none => some []
  | some (.array items) => items.mapM textOfItem?
  | some _ => none

/-- The settings in a table. -/
def ofTable?
    (home : Text)
    (table : Toml.Table) :
    Option Settings := do
  let vaultPath ← textOfKey? table "vault_path"
  let urlBase ← textOfKey? table "url_base"
  let excludes ← textsOfKey? table "exclude"
  let scriptSource ← textOfKey? table "mermaid_script_src"
  some
    {
      vaultPath := vaultPath.map (HomeFolder.expand home)
      urlBase := urlBase
      excludes := excludes
      scriptSource := scriptSource
    }

/-- The settings in a text. -/
def ofText?
    (home text : Text) :
    Option Settings :=
  (Toml.Document.parse? text).bind (ofTable? home)

/-- The settings in a file, or nothing if there is no file. -/
def load
    (disk : Disk)
    (home path : Text) :
    Except SettingsError (Option Settings) :=
  let route := Route.ofText path
  if disk.isPresent route then
    match disk.readText route with
    | .error cause => .error (.unreadable path cause)
    | .ok text =>
        match ofText? home text with
        | none => .error (.malformed path)
        | some settings => .ok (some settings)
  else
    .ok none

end Settings

end NotePublisher
