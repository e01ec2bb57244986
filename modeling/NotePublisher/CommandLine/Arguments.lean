import NotePublisher.Text.Basic

namespace NotePublisher

/-!
# Arguments of the command line

The words behind the name of the command are read from left to right. A word
may be a switch, an option that takes a value, the value of the option before
it, or the path of the vault. `--option=value` gives an option its value at
once, letters of several switches may stand behind one dash, and after `--`
every word is a path.

An option or path is put aside until the next word that is understood, or the
end, and only then checked. A word that is not understood is reported before
what was put aside.
-/

/-- What takes a value: the path of the vault, which has no name, and the options. -/
inductive ValueArgument where
  | root
  | urlBase
  | exclude
  | scriptSource
  | settingsPath
  deriving DecidableEq, Repr

/-- What takes no value. -/
inductive Switch where
  | dryRun
  | verbose
  | quiet
  | help
  | version
  deriving DecidableEq, Repr

/-- What a name on the command line stands for. -/
inductive NamedArgument where
  | value (argument : ValueArgument)
  | switch (switch : Switch)
  deriving DecidableEq, Repr

/-- Why the words of a command line are refused. -/
inductive UsageError where
  /-- A word is neither a known name nor expected as a value. -/
  | unknown (word : Text)
  /-- A value is missing, or empty where a path is needed. -/
  | missingValue (argument : ValueArgument)
  /-- A switch was given a value. -/
  | unexpectedValue (switch : Switch)
  /-- Something that may be given once was given again. -/
  | repeated (argument : NamedArgument)
  /-- More and less output were asked for together. -/
  | quietAndVerbose
  deriving DecidableEq, Repr

/-- Why reading the words ended without arguments to work with. -/
inductive EarlyEnd where
  | help
  | version
  | refused (error : UsageError)
  deriving DecidableEq, Repr

/-- What the command line says. -/
structure Arguments where
  root : Option Text := none
  urlBase : Option Text := none
  excludes : List Text := []
  scriptSource : Option Text := none
  settingsPath : Option Text := none
  dryRun : Bool := false
  /-- How often more output was asked for. -/
  verbosity : Nat := 0
  quiet : Bool := false
  deriving DecidableEq, Repr

namespace ValueArgument

/-- Whether the value is a path, which must not be empty. -/
def isPath : ValueArgument → Bool
  | root => true
  | settingsPath => true
  | urlBase => false
  | exclude => false
  | scriptSource => false

/-- How the argument is shown. -/
def display : ValueArgument → String
  | root => "[ROOT]"
  | urlBase => "--url-base <URL>"
  | exclude => "--exclude <PATTERN>"
  | scriptSource => "--mermaid-src <URL>"
  | settingsPath => "--config <FILE>"

end ValueArgument

namespace Switch

/-- How the switch is shown. -/
def display : Switch → String
  | dryRun => "--dry-run"
  | verbose => "--verbose"
  | quiet => "--quiet"
  | help => "--help"
  | version => "--version"

/-- The switch of a letter. -/
def ofLetter? (letter : Char) : Option Switch :=
  if letter = 'v' then some verbose
  else if letter = 'q' then some quiet
  else if letter = 'h' then some help
  else if letter = 'V' then some version
  else none

end Switch

namespace NamedArgument

/-- How the argument is shown. -/
def display : NamedArgument → String
  | value argument => argument.display
  | switch letter => letter.display

/-- The names that stand behind two dashes. -/
def names : List (String × NamedArgument) :=
  [
    ("url-base", value .urlBase),
    ("exclude", value .exclude),
    ("mermaid-src", value .scriptSource),
    ("config", value .settingsPath),
    ("dry-run", switch .dryRun),
    ("verbose", switch .verbose),
    ("quiet", switch .quiet),
    ("help", switch .help),
    ("version", switch .version)
  ]

/-- What a name stands for. -/
def ofName? (name : Text) : Option NamedArgument :=
  (names.find? fun entry => Text.ofString entry.1 = name).map Prod.snd

end NamedArgument

namespace UsageError

/-- The message of an error. -/
def message : UsageError → String
  | unknown word =>
      "unexpected argument '" ++ word.toString ++ "' found"
  | missingValue argument =>
      "a value is required for '" ++ argument.display ++ "' but none was supplied"
  | unexpectedValue letter =>
      "unexpected value for '" ++ letter.display ++ "' found; no more were expected"
  | repeated argument =>
      "the argument '" ++ argument.display ++ "' cannot be used multiple times"
  | quietAndVerbose =>
      "the argument '--quiet' cannot be used with '--verbose...'"

end UsageError

namespace Arguments

/-- The value of something given for the first time. -/
def once
    (argument : ValueArgument)
    (old : Option Text)
    (given : Text) :
    Except EarlyEnd (Option Text) :=
  if old.isSome then
    .error (.refused (.repeated (.value argument)))
  else if argument.isPath && given.isEmpty then
    .error (.refused (.missingValue argument))
  else
    .ok (some given)

/-- The arguments with one more value. -/
def give
    (arguments : Arguments)
    (argument : ValueArgument)
    (given : Text) :
    Except EarlyEnd Arguments :=
  match argument with
  | .root =>
      (once .root arguments.root given).map fun root => { arguments with root }
  | .urlBase =>
      (once .urlBase arguments.urlBase given).map fun urlBase => { arguments with urlBase }
  | .exclude =>
      .ok { arguments with excludes := arguments.excludes ++ [given] }
  | .scriptSource =>
      (once .scriptSource arguments.scriptSource given).map fun scriptSource =>
        { arguments with scriptSource }
  | .settingsPath =>
      (once .settingsPath arguments.settingsPath given).map fun settingsPath =>
        { arguments with settingsPath }

/-- The arguments with one more switch. -/
def turnOn
    (arguments : Arguments)
    (switch : Switch) :
    Except EarlyEnd Arguments :=
  match switch with
  | .dryRun =>
      if arguments.dryRun then
        .error (.refused (.repeated (.switch .dryRun)))
      else
        .ok { arguments with dryRun := true }
  | .verbose =>
      .ok { arguments with verbosity := arguments.verbosity + 1 }
  | .quiet =>
      if arguments.quiet then
        .error (.refused (.repeated (.switch .quiet)))
      else
        .ok { arguments with quiet := true }
  | .help => .error .help
  | .version => .error .version

end Arguments

/-- An argument put aside, with its value if it has been read. -/
structure PendingArgument where
  argument : ValueArgument
  given : Option Text
  deriving DecidableEq, Repr

/-- How far a command line has been read. -/
structure ArgumentReading where
  arguments : Arguments := {}
  pending : Option PendingArgument := none
  /-- Whether every further word is a path. -/
  pathsOnly : Bool := false
  deriving DecidableEq, Repr

namespace ArgumentReading

/-- Check what was put aside and add it to the arguments. -/
def settle (reading : ArgumentReading) : Except EarlyEnd Arguments :=
  match reading.pending with
  | none => .ok reading.arguments
  | some ⟨argument, none⟩ => .error (.refused (.missingValue argument))
  | some ⟨argument, some given⟩ => reading.arguments.give argument given

/-- Whether the path of the vault has been read. -/
def hasRoot (reading : ArgumentReading) : Bool :=
  reading.arguments.root.isSome ||
    reading.pending.any fun pending => pending.argument = .root

/-- Read a word as the path of the vault. -/
def readPath
    (reading : ArgumentReading)
    (word : Text) :
    Except EarlyEnd ArgumentReading :=
  if reading.hasRoot then
    .error (.refused (.unknown word))
  else
    reading.settle.map fun arguments =>
      { reading with arguments, pending := some ⟨.root, some word⟩ }

/-- Read a switch. -/
def readSwitch
    (reading : ArgumentReading)
    (switch : Switch) :
    Except EarlyEnd ArgumentReading :=
  match reading.settle with
  | .error ended => .error ended
  | .ok settled =>
      (settled.turnOn switch).map fun arguments =>
        { reading with arguments, pending := none }

/-- Read the letters of switches behind one dash. -/
def readLetters
    (reading : ArgumentReading) :
    Text →
    Except EarlyEnd ArgumentReading
  | [] => .ok reading
  | letter :: others =>
      match Switch.ofLetter? letter with
      | none => .error (.refused (.unknown ['-', letter]))
      | some switch =>
          match reading.readSwitch switch with
          | .error ended => .error ended
          | .ok changed => readLetters changed others

/-- Read the name behind two dashes, with the value given to it at once. -/
def readName
    (reading : ArgumentReading)
    (name : Text)
    (given : Option Text) :
    Except EarlyEnd ArgumentReading :=
  match NamedArgument.ofName? name, given with
  | none, _ => .error (.refused (.unknown ('-' :: '-' :: name)))
  | some (.switch switch), none => reading.readSwitch switch
  | some (.switch switch), some _ => .error (.refused (.unexpectedValue switch))
  | some (.value argument), none =>
      reading.settle.map fun arguments =>
        { reading with arguments, pending := some ⟨argument, none⟩ }
  | some (.value argument), some value =>
      match reading.settle with
      | .error ended => .error ended
      | .ok settled =>
          (settled.give argument value).map fun arguments =>
            { reading with arguments, pending := none }

/-- What stands before the first equals sign of a text, and what stands behind it. -/
def splitAtEquals (text : Text) : Text × Option Text :=
  match text.dropWhile (· != '=') with
  | [] => (text, none)
  | _ :: value => (text.takeWhile (· != '='), some value)

/-- Read one word. -/
def readWord
    (reading : ArgumentReading)
    (word : Text) :
    Except EarlyEnd ArgumentReading :=
  if reading.pathsOnly then
    reading.readPath word
  else
    match word with
    | ['-', '-'] => .ok { reading with pathsOnly := true }
    | '-' :: '-' :: long =>
        let (name, given) := splitAtEquals long
        reading.readName name given
    | '-' :: letter :: letters => reading.readLetters (letter :: letters)
    | _ =>
        match reading.pending with
        | some ⟨argument, none⟩ =>
            .ok { reading with pending := some ⟨argument, some word⟩ }
        | _ => reading.readPath word

/-- Check what a reading ends with. -/
def finish (reading : ArgumentReading) : Except EarlyEnd Arguments :=
  match reading.settle with
  | .error ended => .error ended
  | .ok arguments =>
      if arguments.quiet && 0 < arguments.verbosity then
        .error (.refused .quietAndVerbose)
      else
        .ok arguments

end ArgumentReading

/-- The arguments that the words of a command line say. -/
def Arguments.ofWords (words : List Text) : Except EarlyEnd Arguments :=
  match words.foldlM ArgumentReading.readWord {} with
  | .error ended => .error ended
  | .ok reading => reading.finish

end NotePublisher
