import NotePublisher.CommandLine.Run
import NotePublisher.Disk.Change

/-!
# The command

Reads the settings file and the vault into a disk, runs the command on it, and
carries out on the file system what it changed there. Permission bits are left
to the file system: a file that keeps its name keeps its bits.
-/

namespace NotePublisher.Main

/-- The disk after an action; a refusal leaves what was done before it. -/
def diskAfter
    (action : DiskAction Unit)
    (disk : Disk) :
    Disk :=
  match action disk with
  | .ok _ changed => changed
  | .error _ changed => changed

/-- The file of some contents. -/
def plainFile (content : ByteArray) : RegularFile :=
  ⟨0o644, content⟩

/-- The disk with a file and the folders around it. -/
def addFile
    (path : Text)
    (content : ByteArray)
    (disk : Disk) :
    Disk :=
  let route := Route.ofText path
  diskAfter (Disk.writeFile route (plainFile content))
    (diskAfter (Disk.makeFolders route.parent) disk)

/-- The disk with a folder and the folders around it. -/
def addFolder
    (path : Text)
    (disk : Disk) :
    Disk :=
  diskAfter (Disk.makeFolders (Route.ofText path)) disk

/-- The disk with what is at a path of the file system, links followed. -/
def addCopy
    (path : String)
    (disk : Disk) :
    IO Disk := do
  try
    let real ← IO.FS.realPath path
    if ← real.isDir then
      pure (addFolder (Text.ofString path) disk)
    else
      pure (addFile (Text.ofString path) (← IO.FS.readBinFile real) disk)
  catch _ =>
    pure disk

/-- A path at which nothing is, for links that lead nowhere. -/
def nowhere : Text :=
  Text.ofString "/.nowhere/nothing"

/-- The entries of a folder of the file system, and where its links lead. -/
partial def readTree (path : String) : IO (Folder × List String) := do
  let mut tree := Folder.empty
  let mut targets : List String := []
  for entry in ← (← IO.FS.realPath path).readDir do
    let name := entry.fileName.toByteArray
    match (← entry.path.symlinkMetadata).type with
    | .dir =>
        let (children, further) ← readTree entry.path.toString
        tree := tree.insert name (.folder children)
        targets := further ++ targets
    | .symlink =>
        let target ←
          try
            pure (some (← IO.FS.realPath entry.path).toString)
          catch _ =>
            pure none
        tree := tree.insert name (.leaf (.link ((target.map Text.ofString).getD nowhere)))
        targets := target.toList ++ targets
    | .file =>
        tree := tree.insert name (.leaf (.file (plainFile (← IO.FS.readBinFile entry.path))))
    | .other =>
        tree := tree.insert name (.leaf (.file (plainFile ByteArray.empty)))
  pure (tree, targets)

/-- The disk with a vault and everything that links of the vault lead to. -/
def addVault
    (root : Text)
    (disk : Disk) :
    IO Disk := do
  let real ←
    try
      let real ← IO.FS.realPath root.toString
      pure (if ← real.isDir then some real else none)
    catch _ =>
      pure none
  match real with
  | none => addCopy root.toString disk
  | some real =>
      let (tree, targets) ← readTree real.toString
      let place := Text.ofString real.toString
      let route := Route.ofText root
      let prepared := addFolder place disk
      let filled :=
        match prepared.resolve (Route.ofText place) with
        | .ok location => prepared.updateFolder location fun _ => tree
        | .error _ => prepared
      let reachable :=
        if filled.isPresent route then
          filled
        else
          diskAfter (Disk.makeLink route place) (diskAfter (Disk.makeFolders route.parent) filled)
      targets.foldlM
        (fun disk target =>
          if disk.isPresent (Route.ofText (Text.ofString target)) then
            pure disk
          else
            addCopy target disk)
        reachable

/-- The path of a location. -/
def pathOf (location : Location) : String :=
  String.join (location.map fun name => "/" ++ (Utf8.decodeLossy name).toString)

/-- Carry out a change on the file system. -/
def perform (change : Change) : IO Unit :=
  match change with
  | .makeFolder location => IO.FS.createDir (pathOf location)
  | .writeFile location content => IO.FS.writeBinFile (pathOf location) content
  | .removeLeaf location => IO.FS.removeFile (pathOf location)
  | .removeFolder location => IO.FS.removeDir (pathOf location)

/-- The name under which a level is shown. -/
def levelName : LogLevel → String
  | .error => "ERROR"
  | .warning => "WARN"
  | .information => "INFO"
  | .debugging => "DEBUG"
  | .tracing => "TRACE"

/-- Print what the command printed and end as it ended. -/
def conclude (outcome : CommandLine.Outcome) : IO UInt32 := do
  for event in outcome.events do
    IO.eprintln ("[" ++ levelName event.level ++ "] " ++ event.message)
  IO.print outcome.printed
  IO.eprint outcome.complaints
  pure (UInt32.ofNat outcome.exitCode)

/-- The disk before anything is read: only the working folder. -/
def bareDisk (workingFolder : Text) : Disk :=
  let bare : Disk := { top := .empty, workingFolder := [] }
  let made := addFolder workingFolder bare
  match made.resolve (Route.ofText workingFolder) with
  | .ok location => { made with workingFolder := location }
  | .error _ => made

/-- The disk that the command needs for some words. -/
def diskFor
    (home workingFolder : Text)
    (words : List Text) :
    IO Disk := do
  let bare := bareDisk workingFolder
  match Arguments.ofWords words with
  | .error _ => pure bare
  | .ok arguments =>
      let settingsPath := arguments.settingsPath.getD (Settings.defaultPath home)
      let withSettings ← addCopy settingsPath.toString bare
      match arguments.options withSettings home with
      | .error _ => pure withSettings
      | .ok options => addVault options.root withSettings

end NotePublisher.Main

/-- Run the command on the file system. -/
def main (arguments : List String) : IO UInt32 := do
  let words := arguments.map NotePublisher.Text.ofString
  let home := NotePublisher.HomeFolder.ofVariable
    (NotePublisher.Text.ofString ((← IO.getEnv "HOME").getD ""))
  let workingFolder := NotePublisher.Text.ofString (← IO.currentDir).toString
  let disk ← NotePublisher.Main.diskFor home workingFolder words
  let outcome := NotePublisher.CommandLine.run home words disk
  for change in disk.top.changesTo outcome.disk.top do
    NotePublisher.Main.perform change
  NotePublisher.Main.conclude outcome
