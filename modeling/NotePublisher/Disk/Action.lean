import NotePublisher.Disk.Basic

namespace NotePublisher

/-!
# Changing a disk

Each action changes a disk or is refused. An action that is refused keeps the
disk as it was, but for `makeFolders`, which keeps the folders it made before
it was refused, and `writeStaged`, which keeps the bytes it wrote.

A file is stored in two steps, so that it is never seen half written:
`stageFile` writes a temporary file and `commitStaged` gives it its name. With
`Replacement.never` a name that stands for anything is refused.

What an action is refused for is usually seen on the disk. A full or failing
device refuses actions as well; such refusals are given as `StoreFaults`. An
action on a temporary file is put in `orDiscard`, so that the file is removed
when the action is refused, for whatever cause.
-/

/-- A change of a disk that may be refused. -/
abbrev DiskAction (α : Type) :=
  EStateM DiskError Disk α

/-- Whether a file may take the place of what its name stands for. -/
inductive Replacement where
  | allowed
  | never
  deriving DecidableEq

/-- The steps of storing a file that a device refuses, and for what cause. -/
structure StoreFaults where
  /-- After so many steps of a route no more folders are made. -/
  makingFolders : Option (Nat × DiskError) := none
  creating : Option DiskError := none
  /-- So many bytes are written and no more. -/
  writing : Option (Nat × DiskError) := none
  syncing : Option DiskError := none
  settingMode : Option DiskError := none
  naming : Option DiskError := none
  deriving DecidableEq

namespace Disk

/-- Do an action unless a device refuses it. -/
def unlessRefused
    (fault : Option DiskError)
    (action : DiskAction Unit) :
    DiskAction Unit :=
  match fault with
  | none => action
  | some cause => throw cause

/-- The disk with a changed folder. -/
def updateFolder
    (disk : Disk)
    (location : Location)
    (change : Folder → Folder) :
    Disk :=
  { disk with top := disk.top.update change location }

/-- Make a folder where nothing is. -/
def makeFolder (route : Route) : DiskAction Unit := fun disk =>
  match disk.locate route with
  | .error error => .error error disk
  | .ok (_, .stay) => .error .alreadyExists disk
  | .ok (_, .up) => .error .alreadyExists disk
  | .ok (folder, .enter name) =>
      if maximalNameSize < name.size then
        .error .nameTooLong disk
      else
        match disk.look (folder ++ [name]) with
        | some _ => .error .alreadyExists disk
        | none =>
            .ok () (disk.updateFolder folder (·.insert name (.folder .empty)))

/-- Make a folder unless one is there. -/
def makeFolderUnlessThere (route : Route) : DiskAction Unit := fun disk =>
  match makeFolder route disk with
  | .ok _ changed => .ok () changed
  | .error .alreadyExists same =>
      if same.isFolder route then .ok () same else .error .alreadyExists same
  | .error error same => .error error same

/--
Make the folder that steps, given in reverse, lead to. Where the folder above
is missing it is made first.
-/
def makeFoldersAlong
    (absolute : Bool) :
    List Step →
    DiskAction Unit
  | [], disk => .ok () disk
  | step :: above, disk =>
      let route : Route := ⟨absolute, (step :: above).reverse, false⟩
      match makeFolderUnlessThere route disk with
      | .ok _ changed => .ok () changed
      | .error .notFound same =>
          match makeFoldersAlong absolute above same with
          | .ok _ changed => makeFolderUnlessThere route changed
          | .error error changed => .error error changed
      | .error error same => .error error same

/-- Make a folder and the folders around it, as far as they are missing. -/
def makeFolders (route : Route) : DiskAction Unit :=
  makeFoldersAlong route.absolute route.movingSteps.reverse

/-- Make folders, as far as a device lets them be made. -/
def makeFoldersUnder
    (fault : Option (Nat × DiskError))
    (route : Route) :
    DiskAction Unit :=
  match fault with
  | none => makeFolders route
  | some (count, cause) => fun disk =>
      match makeFolders ⟨route.absolute, route.movingSteps.take count, false⟩ disk with
      | .ok _ changed =>
          if changed.isFolder route then .ok () changed else .error cause changed
      | .error error changed => .error error changed

/-- Create an empty temporary file in a folder; only its owner may use it. -/
def createStaged (folder : Route) : DiskAction Unit := fun disk =>
  match disk.resolve folder with
  | .error error => .error error disk
  | .ok location =>
      match disk.look location with
      | none => .error .notFound disk
      | some (.leaf _) => .error .notADirectory disk
      | some .folder =>
          let staged : StagedFile := ⟨location, ⟨0o600, ⟨#[]⟩⟩⟩
          .ok () { disk with staged := staged :: disk.staged }

/-- Change the temporary file created last. -/
def changeStaged (change : RegularFile → RegularFile) : DiskAction Unit := fun disk =>
  match disk.staged with
  | [] => .error .notFound disk
  | staged :: others =>
      .ok () { disk with staged := { staged with file := change staged.file } :: others }

/-- Write bytes behind those of the temporary file created last, as far as a device takes them. -/
def writeStaged
    (fault : Option (Nat × DiskError))
    (bytes : ByteArray) :
    DiskAction Unit :=
  match fault with
  | none => changeStaged fun file => { file with content := file.content ++ bytes }
  | some (count, cause) => do
      changeStaged fun file => { file with content := file.content ++ bytes.extract 0 count }
      throw cause

/-- Give the temporary file created last the permission bits `mode`. -/
def setStagedMode (mode : Nat) : DiskAction Unit :=
  changeStaged fun file => { file with mode := mode }

/-- Remove the temporary file created last. -/
def discardStaged : DiskAction Unit := fun disk =>
  .ok () { disk with staged := disk.staged.tail }

/-- Do an action; if it is refused, the temporary file created last is removed. -/
def orDiscard (action : DiskAction Unit) : DiskAction Unit := fun disk =>
  match action disk with
  | .ok _ changed => .ok () changed
  | .error cause kept =>
      match discardStaged kept with
      | .ok _ changed => .error cause changed
      | .error _ changed => .error cause changed

/-- Write a temporary file in a folder, or leave none there. -/
def stageFile
    (faults : StoreFaults)
    (folder : Route)
    (content : ByteArray) :
    DiskAction Unit := do
  unlessRefused faults.creating (createStaged folder)
  orDiscard do
    writeStaged faults.writing content
    unlessRefused faults.syncing (pure ())

/-- Give the temporary file created last the name that a route leads to. -/
def commitStaged
    (route : Route)
    (replacement : Replacement) :
    DiskAction Unit := fun disk =>
  match disk.staged with
  | [] => .error .notFound disk
  | staged :: others =>
      match disk.locate route with
      | .error .zeroInName =>
          match replacement with
          | .allowed => .error .invalidArgument disk
          | .never => .error .zeroInName disk
      | .error error => .error error disk
      | .ok (folder, .enter name) =>
          if maximalNameSize < name.size then
            .error .nameTooLong disk
          else
            let placed : Disk :=
              { disk.updateFolder folder (·.insert name (.leaf (.file staged.file))) with
                staged := others }
            match disk.look (folder ++ [name]), replacement with
            | some _, .never => .error .alreadyExists disk
            | some .folder, .allowed =>
                .error (if route.folderOnly then .notADirectory else .isADirectory) disk
            | _, _ =>
                if route.folderOnly then
                  .error .notADirectory disk
                else
                  .ok () placed
      | .ok (_, _) =>
          match replacement with
          | .allowed => .error .busy disk
          | .never => .error .alreadyExists disk

/-- Remove a file or a link. -/
def removeFile (route : Route) : DiskAction Unit := fun disk =>
  match disk.locate route with
  | .error error => .error error disk
  | .ok (_, .stay) => .error .isADirectory disk
  | .ok (_, .up) => .error .isADirectory disk
  | .ok (folder, .enter name) =>
      if maximalNameSize < name.size then
        .error .nameTooLong disk
      else
        match disk.look (folder ++ [name]) with
        | none => .error .notFound disk
        | some .folder => .error .isADirectory disk
        | some (.leaf _) =>
            if route.folderOnly then
              .error .notADirectory disk
            else
              .ok () (disk.updateFolder folder (·.erase name))

/-- Remove a folder without entries. -/
def removeFolder (route : Route) : DiskAction Unit := fun disk =>
  match disk.locate route with
  | .error error => .error error disk
  | .ok (_, .stay) => .error .invalidArgument disk
  | .ok (_, .up) => .error .notEmpty disk
  | .ok (folder, .enter name) =>
      if maximalNameSize < name.size then
        .error .nameTooLong disk
      else
        match disk.top.folderAt? (folder ++ [name]) with
        | some inside =>
            if inside.isEmpty then
              .ok () (disk.updateFolder folder (·.erase name))
            else
              .error .notEmpty disk
        | none =>
            match disk.look (folder ++ [name]) with
            | none => .error .notFound disk
            | some _ => .error .notADirectory disk

/-- Write a file in place; a link at the end of the route is followed. -/
def writeFile
    (route : Route)
    (file : RegularFile) :
    DiskAction Unit := fun disk =>
  match disk.resolve route with
  | .error error => .error error disk
  | .ok location =>
      match disk.look location, location.getLast? with
      | some .folder, _ => .error .isADirectory disk
      | _, none => .error .isADirectory disk
      | _, some name =>
          .ok () (disk.updateFolder location.dropLast (·.insert name (.leaf (.file file))))

/-- Make a symbolic link where nothing is. -/
def makeLink
    (route : Route)
    (target : Text) :
    DiskAction Unit := fun disk =>
  match disk.locate route with
  | .error error => .error error disk
  | .ok (_, .stay) => .error .alreadyExists disk
  | .ok (_, .up) => .error .alreadyExists disk
  | .ok (folder, .enter name) =>
      if maximalNameSize < name.size then
        .error .nameTooLong disk
      else
        match disk.look (folder ++ [name]) with
        | some _ => .error .alreadyExists disk
        | none =>
            .ok () (disk.updateFolder folder (·.insert name (.leaf (.link target))))

end Disk

end NotePublisher
