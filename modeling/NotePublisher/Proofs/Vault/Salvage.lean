import NotePublisher.Proofs.Vault.Storing

namespace NotePublisher

/-!
# What storing a document leaves behind when it fails

Storing a document can fail at any point up to the removal of its source,
because something on the disk is in the way or because the device refuses a
step. All that was on the disk is still there then, and no temporary file is.
What may be new is folders on the way to the output and, if the source could
not be removed because it names no file or link, the output itself
(`Vault.persistDocumentUnder_salvages`).
-/

namespace Disk

/-- What a route names; a link at its end is not followed. -/
def kindNamed?
    (disk : Disk)
    (route : Route) :
    Option Kind :=
  match disk.locate route with
  | .error _ => none
  | .ok (_, .stay) => some .folder
  | .ok (_, .up) => some .folder
  | .ok (folder, .enter name) =>
      if maximalNameSize < name.size then
        none
      else
        match disk.look (folder ++ [name]) with
        | none => none
        | some .folder => some .folder
        | some (.leaf content) => if route.folderOnly then none else some (.leaf content)

/-- A route names nothing or a folder. -/
def NamesNoFile
    (disk : Disk)
    (route : Route) :
    Prop :=
  disk.kindNamed? route = none ∨ disk.kindNamed? route = some .folder

/-- What names no file names no link either. -/
theorem namesNoFile_iff
    {disk : Disk}
    {route : Route} :
    disk.NamesNoFile route ↔ ∀ content, disk.kindNamed? route ≠ some (.leaf content) := by
  rw [NamesNoFile]
  rcases disk.kindNamed? route with _ | content | _ <;> simp

/-- A file or link is named by the last step of a route. -/
theorem kindNamed?_eq_leaf_iff
    {disk : Disk}
    {route : Route}
    {content : Leaf} :
    disk.kindNamed? route = some (.leaf content) ↔
      route.folderOnly = false ∧ ∃ above name, disk.locate route = .ok (above, .enter name) ∧
        name.size ≤ maximalNameSize ∧ disk.look (above ++ [name]) = some (.leaf content) := by
  rw [kindNamed?]
  rcases disk.locate route with cause | ⟨above, _ | _ | name⟩
  · simp
  · simp
  · simp
  · by_cases long : maximalNameSize < name.size
    · simp [long, Nat.not_le.mpr long]
    · rcases found : disk.look (above ++ [name]) with _ | other | _ <;>
        cases route.folderOnly <;> simp [long, found, Nat.not_lt.mp long]

/-- A file or link that a route names can be removed. -/
theorem namesNoFile_of_removeFile
    {disk same : Disk}
    {route : Route}
    {cause : DiskError}
    (refused : removeFile route disk = .error cause same) :
    disk.NamesNoFile route := by
  refine namesNoFile_iff.mpr fun content named => ?_
  obtain ⟨folderOnly, above, name, located, fits, found⟩ := kindNamed?_eq_leaf_iff.mp named
  simp [removeFile, located, Nat.not_lt.mpr fits, found, folderOnly] at refused

/-- What a route names it still names where nothing was lost. -/
theorem NamesNoFile.of_kept
    {old new : Disk}
    {route : Route}
    (namesNoFile : new.NamesNoFile route)
    (workingFolder : new.workingFolder = old.workingFolder)
    (kept : ∀ place kind, old.look place = some kind → new.look place = some kind) :
    old.NamesNoFile route := by
  rw [namesNoFile_iff] at namesNoFile ⊢
  intro content named
  obtain ⟨folderOnly, above, name, located, fits, found⟩ := kindNamed?_eq_leaf_iff.mp named
  exact namesNoFile content (kindNamed?_eq_leaf_iff.mpr
    ⟨folderOnly, above, name, locate_of_kept workingFolder kept located, fits, kept _ _ found⟩)

end Disk

namespace Vault

open Disk

section Failing

variable (root : Text) (source output : DocumentPath) (content : Text)

/-- What storing a document that fails can have put at a place. -/
inductive LeftBehind
    (old new : Disk)
    (place : Location) : Prop where
  | folder :
      new.look place = some .folder →
      new.ComesBy (Route.ofText (output.within root)).parent place →
      LeftBehind old new place
  | copy {mode : Nat} :
      source.sameComponents output = false →
      old.NamesNoFile (Route.ofText (source.within root)) →
      new.NamesNoFile (Route.ofText (source.within root)) →
      new.resolve (Route.ofText (output.within root)) = .ok place →
      new.look place = some (.leaf (.file ⟨mode, Utf8.encode content⟩)) →
      LeftBehind old new place

/-- All that was there still is; what is new was left behind, and no temporary file was. -/
structure Salvaged (old new : Disk) : Prop where
  workingFolder : new.workingFolder = old.workingFolder
  staged : new.staged = old.staged
  places : ∀ place, new.look place = old.look place ∨
    old.look place = none ∧ LeftBehind root source output content old new place

end Failing

variable {root : Text} {source output : DocumentPath} {content : Text}

/-- New folders leave the vault as it was to be salvaged. -/
theorem salvaged_of_paved
    {old made : Disk}
    (paved : Paved (Route.ofText (output.within root)).parent old made) :
    Salvaged root source output content old made where
  workingFolder := paved.workingFolder
  staged := paved.staged
  places place := (paved.places place).imp_right fun ⟨missing, isFolder, comesBy⟩ =>
    ⟨missing, .folder isFolder comesBy⟩

/-- A copy stays where its source could not be removed. -/
theorem salvaged_of_copied
    {old made placed : Disk}
    {staged : StagedFile}
    (paved : Paved (Route.ofText (output.within root)).parent old made)
    (different : source.sameComponents output = false)
    (isStored : staged.file = storedFile root source content made)
    (committed : commitStaged (Route.ofText (output.within root)) .never
      { made with staged := staged :: made.staged } = .ok () placed)
    (namesNoFile : placed.NamesNoFile (Route.ofText (source.within root))) :
    Salvaged root source output content old placed := by
  let ready : Disk := { made with staged := staged :: made.staged }
  rcases commitStaged_cases (Route.ofText (output.within root)) ready rfl .never with
    ⟨cause, refused⟩ | ⟨above, name, changed, done, exchanges, -, missing, others⟩
  · cases committed.symm.trans refused
  cases committed.symm.trans done
  have missing := missing rfl
  have keptReady := exchanges.look_of_look missing
  have kept (place : Location) (kind : Kind) (found : old.look place = some kind) :
      placed.look place = some kind :=
    keptReady place kind (paved.look_of_look found)
  have workingFolder := exchanges.workingFolder.trans paved.workingFolder
  refine ⟨workingFolder, others.trans paved.staged, fun place => ?_⟩
  by_cases atPlace : place = above ++ [name]
  · subst atPlace
    have holdsFile : placed.look (above ++ [name]) = some (.leaf (.file staged.file)) :=
      exchanges.replaced.look_place
    have resolved := resolve_of_located
      (locate_of_kept exchanges.workingFolder keptReady exchanges.located)
      (folderOnly_of_commitStaged committed) exchanges.fits holdsFile (by simp [Kind.IsLink])
    rw [isStored] at holdsFile
    refine .inr ⟨?_, .copy different (namesNoFile.of_kept workingFolder kept) namesNoFile resolved
      holdsFile⟩
    cases found : old.look (above ++ [name]) with
    | none => rfl
    | some kind => cases missing.symm.trans (paved.look_of_look found)
  · have same : placed.look place = made.look place := exchanges.replaced.look_of_ne atPlace
    rw [same]
    refine (paved.places place).imp_right ?_
    rintro ⟨missing, isFolder, comesBy⟩
    have comesByThen := comesBy.of_kept exchanges.workingFolder keptReady
    exact ⟨missing, .folder (same.trans isFolder) comesByThen⟩

/-- Storing a document that fails loses nothing, whatever steps the device refuses. -/
theorem persistDocumentUnder_salvages
    {faults : StoreFaults}
    {session last : Session}
    {error : VaultError}
    (failed : persistDocumentUnder faults root source output content session =
      .error error last) :
    Salvaged root source output content session.disk last.disk := by
  obtain ⟨made, paved, stored⟩ :=
    persistDocumentUnder_paves faults root source output content session
  rw [failed] at stored
  cases stored with
  | refused =>
      exact salvaged_of_paved paved
  | copied different isStored committed refused =>
      cases eq_of_removeFile_eq_error refused
      exact salvaged_of_copied paved different isStored committed
        (namesNoFile_of_removeFile refused)

/-- A vault in which the folder made for an output has the name of the source. -/
private def overtakenVault : Folder :=
  .folder (Utf8.encode "a".toList)
    (.leaf (Utf8.encode "b".toList) (.file ⟨0o755, Utf8.encode "x".toList⟩) .empty)
    .empty

/-- A vault with a document that is to be renamed. -/
private def colonVault : Folder :=
  .folder (Utf8.encode "a: b".toList)
    (.leaf (Utf8.encode "c".toList) (.file ⟨0o600, Utf8.encode "old".toList⟩) .empty)
    .empty

/-- The vault after a folder was made for the document and the device was full. -/
private def widenedVault : Folder :=
  .folder (Utf8.encode "a - b".toList) .empty colonVault

/-- The device is full when one byte has been written. -/
private def fullDevice : StoreFaults where
  writing := some (1, .noSpace)

/-- A folder that takes the place of its document, and a device that is full. -/
theorem persistDocumentUnder_salvages_overtakenVault :
    persistDocumentUnder {} "vault".toList ⟨"a".toList⟩ ⟨"a/b".toList⟩ "x".toList
          ⟨diskOf .empty, []⟩ =
        .error (.write "vault/a".toList .isADirectory) ⟨diskOf overtakenVault, []⟩ ∧
      Salvaged "vault".toList ⟨"a".toList⟩ ⟨"a/b".toList⟩ "x".toList (diskOf .empty)
        (diskOf overtakenVault) ∧
      persistDocumentUnder fullDevice "vault".toList ⟨"a: b/c".toList⟩ ⟨"a - b/c".toList⟩
          "new".toList ⟨diskOf colonVault, []⟩ =
        .error (.write "vault/a - b/c".toList .noSpace) ⟨diskOf widenedVault, []⟩ ∧
      Salvaged "vault".toList ⟨"a: b/c".toList⟩ ⟨"a - b/c".toList⟩ "new".toList
        (diskOf colonVault) (diskOf widenedVault) := by
  have overtaken : persistDocumentUnder {} "vault".toList ⟨"a".toList⟩ ⟨"a/b".toList⟩ "x".toList
        ⟨diskOf .empty, []⟩ =
      .error (.write "vault/a".toList .isADirectory) ⟨diskOf overtakenVault, []⟩ := by
    decide +kernel
  have full : persistDocumentUnder fullDevice "vault".toList ⟨"a: b/c".toList⟩
        ⟨"a - b/c".toList⟩ "new".toList ⟨diskOf colonVault, []⟩ =
      .error (.write "vault/a - b/c".toList .noSpace) ⟨diskOf widenedVault, []⟩ := by
    decide +kernel
  exact ⟨overtaken, persistDocumentUnder_salvages overtaken, full,
    persistDocumentUnder_salvages full⟩

end Vault

end NotePublisher
