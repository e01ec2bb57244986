import NotePublisher.Disk.Folder

namespace NotePublisher

/-!
# Routes

A route is a path as the file system reads it: where it starts and the steps
it takes. Empty pieces between slashes take no step, `.` stays and `..` goes
up. A slash at the end asks for a folder.
-/

/-- One step of a route. -/
inductive Step where
  | stay
  | up
  | enter (name : Name)
  deriving DecidableEq

/-- A path as the file system reads it. -/
structure Route where
  /-- Whether the route starts at the top instead of the working folder. -/
  absolute : Bool
  steps : List Step
  /-- Whether the path ends in a slash. -/
  folderOnly : Bool
  deriving DecidableEq

namespace Step

/-- The step that a piece of a path stands for. -/
def ofPiece (piece : Text) : Step :=
  if piece = ['.'] then
    stay
  else if piece = ['.', '.'] then
    up
  else
    enter (Utf8.encode piece)

/-- Whether the step enters a name that holds a zero byte. -/
def holdsZero : Step → Bool
  | enter name => name.data.contains 0
  | stay => false
  | up => false

end Step

namespace Route

/-- The route that a path stands for. -/
def ofText (path : Text) : Route where
  absolute := path.head? = some '/'
  steps := ((path.splitOn '/').filter fun piece => !piece.isEmpty).map Step.ofPiece
  folderOnly := path.getLast? = some '/'

/-- Whether the path was empty. -/
def isNowhere (route : Route) : Bool :=
  !route.absolute && route.steps.isEmpty

/-- The steps to what the route leads to; a slash at the end stays there once more. -/
def allSteps (route : Route) : List Step :=
  if route.folderOnly then route.steps ++ [.stay] else route.steps

/-- Whether a name on the route holds a zero byte. -/
def holdsZero (route : Route) : Bool :=
  route.steps.any Step.holdsZero

/-- The steps without those that stay. -/
def movingSteps (route : Route) : List Step :=
  route.steps.filter (· != .stay)

/--
The folder that the last moving step is taken from; the working folder for a
relative route of one step.
-/
def parent (route : Route) : Route :=
  let before := (route.steps.reverse.dropWhile (· == .stay)).tail.reverse
  {
    absolute := route.absolute
    steps := if before.isEmpty then [.stay] else before
    folderOnly := false
  }

end Route

end NotePublisher
