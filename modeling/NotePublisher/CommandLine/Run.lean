import NotePublisher.CommandLine.Options
import NotePublisher.CommandLine.Summary

namespace NotePublisher

/-!
# Running the command

`CommandLine.run` is the whole command as a function: from the words of the
command line, the home folder and the disk to the changed disk and everything
that is printed.
-/

namespace CommandLine

/-- The name of the command. -/
def commandName : String :=
  "vault-press"

/-- The version of the command. -/
def version : String :=
  "0.1.0"

/-- What is printed on request for help. -/
def helpText : String :=
  Summary.lines
    [
      "Publish a vault of notes as plain markdown.",
      "",
      "Usage: " ++ commandName ++ " [OPTIONS] [ROOT]",
      "",
      "Arguments:",
      "  [ROOT]                   Vault directory (defaults to vault_path in the config file)",
      "",
      "Options:",
      "      --url-base <URL>     Start of rewritten link URLs, e.g. /knowledge",
      "      --exclude <PATTERN>  Skip directories whose name matches PATTERN (repeatable)",
      "      --mermaid-src <URL>  Script tag source for the mermaid renderer",
      "      --config <FILE>      Config file to use instead of ~/.config/vault-press/config.toml",
      "      --dry-run            Show what would change without writing anything",
      "  -v, --verbose...         More log output (-v info, -vv debug, -vvv trace)",
      "  -q, --quiet              Only log errors",
      "  -h, --help               Print help",
      "  -V, --version            Print version"
    ]

/-- How the command ended and what it printed. -/
structure Outcome where
  exitCode : Nat
  /-- What was printed as the result. -/
  printed : String := ""
  /-- What was printed about errors. -/
  complaints : String := ""
  /-- The events that were shown. -/
  events : List Event := []
  /-- The disk afterwards. -/
  disk : Disk

/-- The events that are shown. -/
def shownEvents
    (limit : LogLevel)
    (events : List Event) :
    List Event :=
  events.filter fun event => event.level.isWithin limit

/-- The outcome of words that lead to no arguments. -/
def endEarly
    (disk : Disk)
    (ended : EarlyEnd) :
    Outcome :=
  match ended with
  | .help => { exitCode := 0, printed := helpText, disk }
  | .version =>
      { exitCode := 0, printed := Summary.lines [commandName ++ " " ++ version], disk }
  | .refused error =>
      { exitCode := 2, complaints := Summary.lines ["error: " ++ error.message], disk }

/-- Publish a vault and print what became of it. -/
def publish
    (limit : LogLevel)
    (options : PublishOptions)
    (disk : Disk) :
    Outcome :=
  let start : Session := { disk, events := [.vaultChosen options.root] }
  match Vault.publish options start with
  | .error error session =>
      {
        exitCode := 1
        complaints :=
          Summary.ofError ("Failed to publish " ++ options.root.toString)
            (error.message :: error.causes)
        events := shownEvents limit session.events
        disk := session.disk
      }
  | .ok report session =>
      {
        exitCode := if report.isSuccess then 0 else 1
        printed := Summary.ofReport options.dryRun report
        complaints := Summary.ofFailures report
        events := shownEvents limit session.events
        disk := session.disk
      }

/-- Run the command. -/
def run
    (home : Text)
    (words : List Text)
    (disk : Disk) :
    Outcome :=
  match Arguments.ofWords words with
  | .error ended => endEarly disk ended
  | .ok arguments =>
      match arguments.options disk home with
      | .error error =>
          { exitCode := 1, complaints := Summary.ofError error.message error.causes, disk }
      | .ok options => publish arguments.logLevel options disk

end CommandLine

end NotePublisher
