import NotePublisher.CommandLine.Arguments
import NotePublisher.Settings.Basic
import NotePublisher.Vault.Publish

namespace NotePublisher

/-!
# Options of a run

What a run is asked to do comes from the command line and from the settings
file; the command line wins, and patterns of both are taken. A settings file
that is named on the command line has to exist.
-/

/-- Why arguments do not lead to a run. -/
inductive OptionsError where
  | settings (error : SettingsError)
  | settingsNotFound (path : Text)
  /-- The vault is named neither on the command line nor in the settings file. -/
  | noVault (defaultPath : Text)
  deriving DecidableEq, Repr

namespace OptionsError

/-- The message of an error. -/
def message : OptionsError → String
  | settings error =>
      error.message
  | settingsNotFound path =>
      "Config file not found: " ++ path.toString
  | noVault defaultPath =>
      "No vault directory given and no vault_path in " ++ defaultPath.toString

/-- The messages of the causes behind an error. -/
def causes : OptionsError → List String
  | settings error => [error.cause]
  | settingsNotFound _ => []
  | noVault _ => []

end OptionsError

namespace Arguments

/-- Up to which level events are shown. -/
def logLevel (arguments : Arguments) : LogLevel :=
  if arguments.quiet then
    .error
  else
    match arguments.verbosity with
    | 0 => .warning
    | 1 => .information
    | 2 => .debugging
    | _ + 3 => .tracing

/-- The settings that go with the arguments. -/
def loadSettings
    (disk : Disk)
    (home : Text)
    (arguments : Arguments) :
    Except OptionsError Settings :=
  match Settings.load disk home (arguments.settingsPath.getD (Settings.defaultPath home)),
      arguments.settingsPath with
  | .error error, _ => .error (.settings error)
  | .ok (some settings), _ => .ok settings
  | .ok none, some path => .error (.settingsNotFound path)
  | .ok none, none => .ok {}

/-- The options of the arguments, completed from the settings. -/
def withSettings
    (home : Text)
    (arguments : Arguments)
    (settings : Settings) :
    Except OptionsError PublishOptions :=
  match arguments.root.or settings.vaultPath with
  | none => .error (.noVault (Settings.defaultPath home))
  | some root =>
      .ok
        {
          root := root
          urlBase := (arguments.urlBase.or settings.urlBase).getD []
          excludes := settings.excludes ++ arguments.excludes
          scriptSource :=
            (arguments.scriptSource.or settings.scriptSource).getD
              Diagram.defaultScriptSource
          dryRun := arguments.dryRun
        }

/-- The options of a run. -/
def options
    (disk : Disk)
    (home : Text)
    (arguments : Arguments) :
    Except OptionsError PublishOptions :=
  match arguments.loadSettings disk home with
  | .error error => .error error
  | .ok settings => arguments.withSettings home settings

end Arguments

end NotePublisher
