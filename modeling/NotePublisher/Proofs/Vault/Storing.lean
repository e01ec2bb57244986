import NotePublisher.Proofs.Disk.Paving
import NotePublisher.Proofs.Vault.Store

namespace NotePublisher

/-!
# Storing a document in any tree

How far storing a document can go (`Vault.Stored`), and what each part of it
does where links may be anywhere: folders are made on the way to the output
(`Vault.persistDocument_paves`), and the temporary file is given a name where
nothing is (`Vault.exists_placed`) or the document's own
(`Vault.exists_replaced`).
-/

namespace Vault

open Disk

/-- The path of the root leads to a folder. -/
abbrev LeadsHome
    (disk : Disk)
    (root : Text)
    (home : Location) :
    Prop :=
  disk.Leads maximalLinks (disk.start (Route.ofText root)) (Route.ofText root).steps home

/-- A root leads home still where nothing was lost. -/
theorem LeadsHome.of_kept
    {old new : Disk}
    {root : Text}
    {home : Location}
    (leads : LeadsHome old root home)
    (workingFolder : new.workingFolder = old.workingFolder)
    (kept : ∀ place kind, old.look place = some kind → new.look place = some kind) :
    LeadsHome new root home := by
  have starts : new.start (Route.ofText root) = old.start (Route.ofText root) := by
    simp [start, workingFolder]
  rw [LeadsHome, starts]
  exact leads.kept (fun _ => kept _ _) fun _ _ => kept _ _

/-- The root leads to one place or nowhere. -/
def Homeward
    (disk : Disk)
    (root : Text)
    (home : Location) :
    Prop :=
  ∀ there, LeadsHome disk root there → there = home

theorem LeadsHome.homeward
    {disk : Disk}
    {root : Text}
    {home : Location}
    (leads : LeadsHome disk root home) :
    Homeward disk root home :=
  fun _ other => other.treads.unique leads.treads

/-- Removing empty folders does not fail. -/
theorem removeEmptyFolders_ok
    (root : Text)
    (folders : List DocumentPath)
    (session : Session) :
    ∃ last, removeEmptyFolders root folders session = .ok () last := by
  induction folders generalizing session with
  | nil =>
      exact ⟨session, rfl⟩
  | cons folder above inductionHypothesis =>
      simp only [removeEmptyFolders]
      cases session.disk.readFolder (Route.ofText (folder.within root)) with
      | error cause => exact ⟨session, rfl⟩
      | ok inside =>
          simp only
          split
          · cases removeFolder (Route.ofText (folder.within root)) session.disk with
            | ok _ changed => exact inductionHypothesis _
            | error cause same => exact ⟨_, rfl⟩
          · exact ⟨session, rfl⟩

/-- The file that a document is stored as: it has the permission bits of the source, if any. -/
def storedFile
    (root : Text)
    (source : DocumentPath)
    (content : Text)
    (disk : Disk) :
    RegularFile where
  mode := (disk.mode? (Route.ofText (source.within root))).getD 0o600
  content := Utf8.encode content

/-- What becomes of a document when it is stored, by how far that goes. -/
inductive Stored
    (root : Text)
    (source output : DocumentPath)
    (content : Text)
    (session : Session)
    (made : Disk) :
    EStateM.Result VaultError Session Unit → Prop where
  | refused {error : VaultError} :
      Stored root source output content session made (.error error ⟨made, session.events⟩)
  | inPlace {staged : StagedFile} {placed : Disk} {events : List Event} :
      source.sameComponents output = true →
      staged.file = storedFile root source content made →
      commitStaged (Route.ofText (output.within root)) .allowed
        { made with staged := staged :: made.staged } = .ok () placed →
      Stored root source output content session made (.ok () ⟨placed, events⟩)
  | copied {staged : StagedFile} {placed same : Disk} {cause : DiskError} {error : VaultError} :
      source.sameComponents output = false →
      staged.file = storedFile root source content made →
      commitStaged (Route.ofText (output.within root)) .never
        { made with staged := staged :: made.staged } = .ok () placed →
      removeFile (Route.ofText (source.within root)) placed = .error cause same →
      Stored root source output content session made (.error error ⟨same, session.events⟩)
  | moved {staged : StagedFile} {placed without : Disk} {last : Session} {events : List Event} :
      source.sameComponents output = false →
      staged.file = storedFile root source content made →
      commitStaged (Route.ofText (output.within root)) .never
        { made with staged := staged :: made.staged } = .ok () placed →
      removeFile (Route.ofText (source.within root)) placed = .ok () without →
      removeEmptyFolders root source.enclosingFolders ⟨without, session.events⟩ = .ok () last →
      Stored root source output content session made (.ok () ⟨last.disk, events⟩)

/-- Either a temporary file is given its name or it is removed. -/
private theorem giveName_cases
    (fault : Option DiskError)
    (route : Route)
    (replacement : Replacement)
    (made : Disk)
    (ready : StagedFile) :
    (∃ cause, orDiscard (unlessRefused fault (commitStaged route replacement))
        { made with staged := ready :: made.staged } = .error cause made) ∨
      ∃ placed, commitStaged route replacement { made with staged := ready :: made.staged } =
          .ok () placed ∧
        orDiscard (unlessRefused fault (commitStaged route replacement))
          { made with staged := ready :: made.staged } = .ok () placed := by
  cases fault with
  | some cause => exact .inl ⟨cause, orDiscard_of_error rfl⟩
  | none =>
      rcases commitStaged_cases route { made with staged := ready :: made.staged } rfl
          replacement with
        ⟨cause, refused⟩ | ⟨above, name, placed, done, -⟩
      · exact .inl ⟨cause, orDiscard_of_error refused⟩
      · exact .inr ⟨placed, done, orDiscard_of_ok done⟩

section Persist

variable {root : Text} {source output : DocumentPath} {content : Text} {session : Session}

/-- How far storing a document can go once its temporary file is ready. -/
private theorem placeDocument_stored
    (fault : Option DiskError)
    {made : Disk}
    {ready : StagedFile}
    (readyHolds : ready.file = storedFile root source content made) :
    Stored root source output content session made
      (placeDocument fault root source output
        ⟨{ made with staged := ready :: made.staged }, session.events⟩) := by
  rw [placeDocument]
  cases same : source.sameComponents output with
  | true =>
      simp only [if_true, bind, EStateM.bind, VaultAction.onDisk]
      rcases giveName_cases fault (Route.ofText (output.within root)) .allowed made ready with
        ⟨cause, refused⟩ | ⟨placed, committed, done⟩
      · simp only [refused]
        exact .refused
      · simp only [done]
        exact .inPlace same readyHolds committed
  | false =>
      simp only [Bool.false_eq_true, if_false, bind, EStateM.bind, VaultAction.onDisk]
      rcases giveName_cases fault (Route.ofText (output.within root)) .never made ready with
        ⟨cause, refused⟩ | ⟨placed, committed, done⟩
      · simp only [refused]
        exact .refused
      · simp only [done]
        cases removed : removeFile (Route.ofText (source.within root)) placed with
        | error cause kept => exact .copied same readyHolds committed removed
        | ok _ without =>
            obtain ⟨last, cleared⟩ :=
              removeEmptyFolders_ok root source.enclosingFolders ⟨without, session.events⟩
            simp only [cleared]
            exact .moved same readyHolds committed removed cleared

/-- How far storing a document can go once its folder is there. -/
private theorem persistDocumentUnder_stored
    (faults : StoreFaults)
    {made : Disk}
    (madeFolders : makeFoldersUnder faults.makingFolders
      (Route.ofText (output.within root)).parent session.disk = .ok () made) :
    Stored root source output content session made
      (persistDocumentUnder faults root source output content session) := by
  simp only [persistDocumentUnder, bind, EStateM.bind, VaultAction.onDisk, VaultAction.disk,
    madeFolders]
  rcases stageFile_cases faults (Route.ofText (output.within root)).parent (Utf8.encode content)
      made with
    ⟨cause, refused⟩ | ⟨staged, written, staged_file⟩
  · simp only [refused]
    exact .refused
  simp only [written]
  have sameMode := @mode?_congr { made with staged := staged :: made.staged } made (fun _ => rfl)
    rfl (Route.ofText (source.within root))
  rw [sameMode]
  cases mode : made.mode? (Route.ofText (source.within root)) with
  | none =>
      refine placeDocument_stored faults.naming ?_
      rw [staged_file, storedFile, mode]
      rfl
  | some bits =>
      rcases setStagedMode_cases faults.settingMode bits made staged with
        ⟨cause, refused⟩ | bitsSet
      · simp only [EStateM.bind, VaultAction.onDisk, refused]
        exact .refused
      · simp only [EStateM.bind, VaultAction.onDisk, bitsSet]
        refine placeDocument_stored faults.naming ?_
        rw [staged_file, storedFile, mode]
        rfl

/--
Folders are made around the output as far as that goes; then the document is
stored, as far as the device allows.
-/
theorem persistDocumentUnder_paves
    (faults : StoreFaults)
    (root : Text)
    (source output : DocumentPath)
    (content : Text)
    (session : Session) :
    ∃ made, Paved (Route.ofText (output.within root)).parent session.disk made ∧
      Stored root source output content session made
        (persistDocumentUnder faults root source output content session) := by
  obtain ⟨made, paved, done | ⟨cause, refused⟩⟩ :=
    makeFoldersUnder_paves faults.makingFolders (Route.ofText (output.within root)).parent
      session.disk
  · exact ⟨made, paved, persistDocumentUnder_stored faults done⟩
  · refine ⟨made, paved, ?_⟩
    simp only [persistDocumentUnder, bind, EStateM.bind, VaultAction.onDisk, refused]
    exact .refused

/-- Storing a document makes the folders of its output, and stores it or fails. -/
theorem persistDocument_paves
    (root : Text)
    (source output : DocumentPath)
    (content : Text)
    (session : Session) :
    ∃ made, Paved (Route.ofText (output.within root)).parent session.disk made ∧
      Stored root source output content session made
        (persistDocument root source output content session) :=
  persistDocumentUnder_paves {} root source output content session

/-- The folders made around an output are below the root or past a link on the way to it. -/
theorem persistDocument_cases
    {home : Location}
    (outputNormal : output.IsNormal)
    (leads : LeadsHome session.disk root home) :
    ∃ made, Widened home output.location session.disk made ∧
      Stored root source output content session made
        (persistDocument root source output content session) := by
  obtain ⟨made, paved, stored⟩ := persistDocument_paves root source output content session
  refine ⟨made, ?_, stored⟩
  obtain ⟨above, name, shape⟩ := location_eq_concat outputNormal
  obtain ⟨other, parent, -, sameMoves⟩ := Route.parent_below (Route.ofText root) above name
  have starts : session.disk.start other = session.disk.start (Route.ofText root) := by
    simp [start, sameMoves.absolute]
  rw [outputNormal.isNamed.route_within, shape, parent] at paved
  rw [shape]
  exact paved.widened (starts ▸ leads.of_same_moves sameMoves.moves) name

end Persist

/-- A file was placed where nothing was, after folders were made for it. -/
structure Placed
    (root : Text)
    (home : Location)
    (output : DocumentPath)
    (file : RegularFile)
    (disk made placed : Disk)
    (place : Location) : Prop where
  missing : disk.look place = none
  allowed : Location.IsBelow home place ∨ disk.Detours home output.location
  replaced : Folder.Replaced place (some (.leaf (.file file))) made.top placed.top
  workingFolder : placed.workingFolder = disk.workingFolder
  staged : placed.staged = disk.staged
  /-- The root leads home still, and the names of the output lead on to the place. -/
  leads : LeadsHome placed root home
  onward : ∃ above name around left, output.location = above ++ [name] ∧
    place = around ++ [name] ∧ name.size ≤ maximalNameSize ∧
    placed.Leads left home (above.map .enter) around ∧
    placed.Leads maximalLinks (placed.start (Route.ofText root))
      ((Route.ofText root).steps ++ above.map .enter) around

section Placing

variable {root : Text} {home : Location} {output : DocumentPath} {staged : StagedFile}
  {disk made placed : Disk}

/-- A file that may take no other's place is placed where nothing was. -/
theorem exists_placed
    (outputNormal : output.IsNormal)
    (leads : LeadsHome disk root home)
    (widened : Widened home output.location disk made)
    (committed : commitStaged (Route.ofText (output.within root)) .never
      { made with staged := staged :: made.staged } = .ok () placed) :
    ∃ place, Placed root home output staged.file disk made placed place := by
  obtain ⟨above, name, shape⟩ := location_eq_concat outputNormal
  let ready : Disk := { made with staged := staged :: made.staged }
  have readyHome : LeadsHome ready root home :=
    leads.of_kept widened.workingFolder fun _ _ => widened.look_of_look
  rw [outputNormal.isNamed.route_within, shape] at committed
  rcases commitStaged_cases ((Route.ofText root).below (above ++ [name])) ready rfl .never with
    ⟨cause, refused⟩ | ⟨around, other, changed, done, exchanges, -, missing, others⟩
  · cases committed.symm.trans refused
  cases committed.symm.trans done
  have missing := missing rfl
  obtain ⟨rfl, wholeWay⟩ := leads_of_locate_below exchanges.located
  obtain ⟨-, left, onward⟩ := locate_below_cases readyHome exchanges.located
  have kept := exchanges.look_of_look missing
  have placedLeads {links : Nat} {here there : Location} {steps : List Step}
      (leads : ready.Leads links here steps there) : placed.Leads links here steps there :=
    leads.kept (fun _ => kept _ _) fun _ _ => kept _ _
  refine ⟨around ++ [other], ?_, ?_, exchanges.replaced,
    exchanges.workingFolder.trans widened.workingFolder, others.trans widened.staged,
    readyHome.of_kept exchanges.workingFolder kept,
    ⟨above, other, around, left, shape, rfl, exchanges.fits, placedLeads onward, ?_⟩⟩
  · cases found : disk.look (around ++ [other]) with
    | none => rfl
    | some kind => cases missing.symm.trans (widened.look_of_look found)
  · rcases onward.straight_or_detours other with rfl | detours
    · exact .inl ⟨above ++ [other], by simp, List.append_assoc ..⟩
    · exact .inr (shape ▸ widened.detours detours)
  · have starts : placed.start (Route.ofText root) = ready.start (Route.ofText root) := by
      simp [start, exchanges.workingFolder]
    rw [starts]
    exact placedLeads wholeWay

/-- A file may take the place of the document that it is the output of. -/
theorem exists_replaced
    (legible : (Route.ofText root).holdsZero = false)
    (outputNormal : output.IsNormal)
    (fits : Location.Fits output.location)
    (leads : LeadsHome disk root home)
    {content : Leaf}
    (present : disk.look (home ++ output.location) = some (.leaf content))
    (widened : Widened home output.location disk made)
    (committed : commitStaged (Route.ofText (output.within root)) .allowed
      { made with staged := staged :: made.staged } = .ok () placed) :
    Folder.Replaced (home ++ output.location) (some (.leaf (.file staged.file))) made.top
        placed.top ∧
      placed.workingFolder = disk.workingFolder ∧ placed.staged = disk.staged := by
  obtain ⟨above, name, shape⟩ := location_eq_concat outputNormal
  let ready : Disk := { made with staged := staged :: made.staged }
  have readyHome : LeadsHome ready root home :=
    leads.of_kept widened.workingFolder fun _ _ => widened.look_of_look
  have holdsFolder : ready.look (home ++ above) = some .folder := by
    rw [shape, ← List.append_assoc] at present
    exact widened.look_of_look
      (Folder.look_eq_folder_of_look_append (List.cons_ne_nil name []) present)
  have fitsAbove : Location.Fits above := fun part member =>
    fits part (shape ▸ List.mem_append_left _ member)
  have straight := locate_below_of_look readyHome
    (Route.holdsZero_below legible (shape ▸ outputNormal.plain)) fitsAbove holdsFolder
  rw [outputNormal.isNamed.route_within, shape] at committed
  rcases commitStaged_cases ((Route.ofText root).below (above ++ [name])) ready rfl .allowed with
    ⟨cause, refused⟩ | ⟨around, other, changed, done, exchanges, -, -, others⟩
  · cases committed.symm.trans refused
  cases committed.symm.trans done
  cases exchanges.located.symm.trans straight
  rw [shape, ← List.append_assoc]
  exact ⟨exchanges.replaced, exchanges.workingFolder.trans widened.workingFolder,
    others.trans widened.staged⟩

/-- On the way to a file that was placed, something stands under each name of the output. -/
theorem Placed.look_ne_none
    {place above below : Location}
    {name : Name}
    {file : RegularFile}
    (isPlaced : Placed root home output file disk made placed place)
    (shape : output.location = above ++ name :: below)
    (fits : Location.Fits above)
    (holdsFolder : placed.look (home ++ above) = some .folder) :
    placed.look (home ++ above ++ [name]) ≠ none := by
  obtain ⟨outer, last, around, left, outputShape, rfl, -, onward, -⟩ := isPlaced.onward
  have straight := leads_straight fits holdsFolder
  rcases List.eq_nil_or_concat below with rfl | ⟨more, lastName, rfl⟩
  · obtain ⟨rfl, sameName⟩ := List.append_inj' (outputShape.symm.trans shape) rfl
    cases sameName
    cases onward.treads.unique (straight 0).treads
    have holdsFile := isPlaced.replaced.look_place
    intro missing
    cases holdsFile.symm.trans missing
  · have outer_eq : outer = above ++ name :: more := by
      have whole : outer ++ [last] = (above ++ name :: more) ++ [lastName] := by
        rw [← outputShape, shape]
        simp
      exact (List.append_inj' whole rfl).1
    rw [outer_eq, List.map_append] at onward
    obtain ⟨next, middle, toMiddle, onward⟩ := onward.split
    cases toMiddle.treads.unique (straight 0).treads
    cases onward with
    | enter _ _ entered _ => exact Option.ne_none_iff_exists'.mpr ⟨_, entered⟩
    | follow _ _ linked _ => exact Option.ne_none_iff_exists'.mpr ⟨_, linked⟩

end Placing

end Vault

end NotePublisher
