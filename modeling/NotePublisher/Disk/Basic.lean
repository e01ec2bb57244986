import NotePublisher.Disk.Error
import NotePublisher.Disk.Route

namespace NotePublisher

/-!
# Disks

A disk holds a tree of folders, the folder that relative routes start from,
and the temporary files that have been written but not yet given a name. The
random name of a temporary file is known to nobody else, so such files are
kept apart from the named entries.

`Disk.resolve` follows a route, through symbolic links, to the location it
leads to. The location may be one at which nothing is, as long as the folder
around it exists.

From a working folder that has been removed no step leads on. Some systems
still go up from there, so relative routes are followed faithfully for as long
as the working folder is there.
-/

/-- A temporary file and the folder it was written in. -/
structure StagedFile where
  folder : Location
  file : RegularFile
  deriving DecidableEq

/-- A file system. -/
structure Disk where
  top : Folder
  workingFolder : Location
  staged : List StagedFile := []
  deriving DecidableEq

namespace Disk

/-- The greatest number of bytes of a name. -/
def maximalNameSize : Nat :=
  255

/-- The greatest number of links followed on one route. -/
def maximalLinks : Nat :=
  40

/-- The permission bits that folders have. -/
def folderMode : Nat :=
  0o755

/-- What is at a location, without following links. -/
def look
    (disk : Disk)
    (location : Location) :
    Option Kind :=
  disk.top.look location

/-- The location that a route starts from. -/
def start
    (disk : Disk)
    (route : Route) :
    Location :=
  if route.absolute then [] else disk.workingFolder

/--
The location that steps lead to. `follow` says where a link at a folder leads
with the steps that remain; a link at the last step is followed on request
only.
-/
def walkWith
    (disk : Disk)
    (follow : Location → Text → List Step → Except DiskError Location)
    (followLast : Bool) :
    Location →
    List Step →
    Except DiskError Location
  | here, [] => .ok here
  | here, step :: rest =>
      match disk.look here with
      | none => .error .notFound
      | some (.leaf _) => .error .notADirectory
      | some .folder =>
          match step with
          | .stay => walkWith disk follow followLast here rest
          | .up => walkWith disk follow followLast here.dropLast rest
          | .enter name =>
              if maximalNameSize < name.size then
                .error .nameTooLong
              else
                match disk.look (here ++ [name]) with
                | none =>
                    if rest.isEmpty then .ok (here ++ [name]) else .error .notFound
                | some (.leaf (.link target)) =>
                    if rest.isEmpty && !followLast then
                      .ok (here ++ [name])
                    else
                      follow here target rest
                | some _ => walkWith disk follow followLast (here ++ [name]) rest

/-- The location that steps lead to when at most `links` links are followed. -/
def walk
    (disk : Disk)
    (followLast : Bool) :
    Nat →
    Location →
    List Step →
    Except DiskError Location
  | 0 =>
      walkWith disk (fun _ _ _ => .error .tooManyLinks) followLast
  | links + 1 =>
      walkWith disk
        (fun here target rest =>
          let route := Route.ofText target
          walk disk followLast links
            (if route.absolute then [] else here)
            (route.allSteps ++ rest))
        followLast

/-- The location that a route leads to, where a link at its end is followed. -/
def resolve
    (disk : Disk)
    (route : Route) :
    Except DiskError Location :=
  if route.holdsZero then
    .error .zeroInName
  else if route.isNowhere then
    .error .notFound
  else
    disk.walk true maximalLinks (disk.start route) route.allSteps

/-- The folder in which a route takes its last step, and that step. -/
def locate
    (disk : Disk)
    (route : Route) :
    Except DiskError (Location × Step) :=
  if route.holdsZero then
    .error .zeroInName
  else
    match route.steps.getLast? with
    | none => if route.absolute then .ok ([], .stay) else .error .notFound
    | some last =>
        match disk.walk true maximalLinks (disk.start route) route.steps.dropLast with
        | .error error => .error error
        | .ok folder =>
            match disk.look folder with
            | none => .error .notFound
            | some (.leaf _) => .error .notADirectory
            | some .folder => .ok (folder, last)

/-- What a route leads to, where links are followed. -/
def inspect
    (disk : Disk)
    (route : Route) :
    Except DiskError Kind :=
  match disk.resolve route with
  | .error error => .error error
  | .ok location =>
      match disk.look location with
      | none => .error .notFound
      | some kind => .ok kind

/-- Whether a route leads to anything. -/
def isPresent
    (disk : Disk)
    (route : Route) :
    Bool :=
  match disk.inspect route with
  | .ok _ => true
  | .error _ => false

/-- Whether a route leads to a folder. -/
def isFolder
    (disk : Disk)
    (route : Route) :
    Bool :=
  match disk.inspect route with
  | .ok .folder => true
  | .ok (.leaf _) => false
  | .error _ => false

/-- The permission bits of what a route leads to. -/
def mode?
    (disk : Disk)
    (route : Route) :
    Option Nat :=
  match disk.inspect route with
  | .ok (.leaf (.file file)) => some file.mode
  | .ok .folder => some folderMode
  | .ok (.leaf (.link _)) => none
  | .error _ => none

/-- The contents of the file that a route leads to. -/
def readFile
    (disk : Disk)
    (route : Route) :
    Except DiskError ByteArray :=
  match disk.inspect route with
  | .ok (.leaf (.file file)) => .ok file.content
  | .ok (.leaf (.link _)) => .error .tooManyLinks
  | .ok .folder => .error .isADirectory
  | .error error => .error error

/-- The text of the file that a route leads to. -/
def readText
    (disk : Disk)
    (route : Route) :
    Except DiskError Text :=
  match disk.readFile route with
  | .error error => .error error
  | .ok content =>
      match Utf8.decode? content with
      | none => .error .notText
      | some text => .ok text

/-- The folder that a route leads to. -/
def readFolder
    (disk : Disk)
    (route : Route) :
    Except DiskError Folder :=
  match disk.resolve route with
  | .error error => .error error
  | .ok location =>
      match disk.top.folderAt? location with
      | some folder => .ok folder
      | none =>
          match disk.look location with
          | none => .error .notFound
          | some _ => .error .notADirectory

end Disk

end NotePublisher
