import NotePublisher.Disk.Folder

namespace NotePublisher

/-!
# Changes between folders

What has to be done to make one folder out of another: what is new or different
is written first, and what is gone is removed afterwards, so that a file that
moved is never missing.
-/

/-- One step that changes a folder. -/
inductive Change where
  | makeFolder (location : Location)
  | writeFile (location : Location) (content : ByteArray)
  | removeLeaf (location : Location)
  | removeFolder (location : Location)
  deriving DecidableEq

namespace Folder

/-- The entries of the folder that a name stands for; none if it is no folder. -/
def childrenOf
    (folder : Folder)
    (name : Name) :
    Folder :=
  match folder.find? name with
  | some (.folder children) => children
  | some (.leaf _) => empty
  | none => empty

/-- Whether a name stands for a folder. -/
def holdsFolder
    (folder : Folder)
    (name : Name) :
    Bool :=
  match folder.find? name with
  | some (.folder _) => true
  | some (.leaf _) => false
  | none => false

/-- The steps that write one file. -/
def changesOfFile
    (here : Location)
    (old : Folder)
    (name : Name)
    (file : RegularFile) :
    List Change :=
  match old.find? name with
  | some (.leaf (.file before)) =>
      if before.content = file.content then
        []
      else
        [.writeFile (here ++ [name]) file.content]
  | some (.leaf (.link _)) =>
      [.removeLeaf (here ++ [name]), .writeFile (here ++ [name]) file.content]
  | some (.folder _) => []
  | none => [.writeFile (here ++ [name]) file.content]

/-- The steps that add what is new or different in the second folder. -/
def additions
    (here : Location)
    (old : Folder) :
    Folder →
    List Change
  | empty => []
  | leaf name content others =>
      let changes :=
        match content with
        | .file file => changesOfFile here old name file
        | .link _ => []
      changes ++ additions here old others
  | folder name children others =>
      let made := if old.holdsFolder name then [] else [.makeFolder (here ++ [name])]
      made ++ additions (here ++ [name]) (old.childrenOf name) children ++
        additions here old others

/-- The steps that remove what is gone in the first folder. -/
def removals
    (here : Location)
    (new : Folder) :
    Folder →
    List Change
  | empty => []
  | leaf name _ others =>
      let changes :=
        match new.find? name with
        | some _ => []
        | none => [.removeLeaf (here ++ [name])]
      changes ++ removals here new others
  | folder name children others =>
      let removed := if new.holdsFolder name then [] else [.removeFolder (here ++ [name])]
      removals (here ++ [name]) (new.childrenOf name) children ++ removed ++
        removals here new others

/-- The steps that make the second folder out of the first. -/
def changesTo (old new : Folder) : List Change :=
  additions [] old new ++ removals [] new old

end Folder

end NotePublisher
