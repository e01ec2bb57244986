import NotePublisher.Document.Path

namespace NotePublisher

/-!
# The index of a vault

The index lists the files of a vault in descending order of their paths. Of
neighbours that name the same file the first is kept. A link's target stands
for the last document of the index that it names, which is the least in the
order of paths.
-/

/-- The files of a vault, the greatest path first. -/
structure DocumentIndex where
  documents : List DocumentPath
  deriving DecidableEq, Repr

namespace DocumentIndex

/-- The paths in descending order. -/
def sortDescending (paths : List DocumentPath) : List DocumentPath :=
  paths.mergeSort fun left right => (right.order left).isLE

/-- `kept` and the paths after it, without those that repeat the last path kept. -/
def dropRepeatsAfter
    (kept : DocumentPath) :
    List DocumentPath →
    List DocumentPath
  | [] => [kept]
  | path :: others =>
      if kept.sameComponents path then
        dropRepeatsAfter kept others
      else
        kept :: dropRepeatsAfter path others

/-- The paths without those that name the same file as the last path kept before them. -/
def dropRepeats : List DocumentPath → List DocumentPath
  | [] => []
  | path :: others => dropRepeatsAfter path others

/-- The index of the given files. -/
def ofPaths (paths : List DocumentPath) : DocumentIndex where
  documents := dropRepeats (sortDescending paths)

/-- The number of files. -/
def size (index : DocumentIndex) : Nat :=
  index.documents.length

/-- Whether there is no file. -/
def isEmpty (index : DocumentIndex) : Bool :=
  index.documents.isEmpty

/-- The document that a link's target stands for. -/
def resolve?
    (index : DocumentIndex)
    (target : Text) :
    Option DocumentPath :=
  (index.documents.filter (·.matchesTarget target)).getLast?

end DocumentIndex

end NotePublisher
